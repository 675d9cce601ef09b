import Pallette.Http.Framing

/-!
# Pipelining — how many requests of a stream get dispatched

`onMessage` takes at most one request out of the buffer each time it is called, and it is called
once for each chunk that arrives.  `dispatched_iff`: a stream of requests is dispatched completely
exactly if at no point more requests are still to come to their end than there are chunks still to
arrive.
-/

open Reasoning

namespace Pallette

/-- A well-formed `GET` request. -/
structure GetRequest where
  head : RequestHead
  get : head.method = .GET

namespace GetRequest

def wire (g : GetRequest) : Bytes :=
  g.head.wire

theorem wire_length_pos (g : GetRequest) : 0 < g.wire.length := by
  simp only [wire, RequestHead.wire, RequestHead.wireEnding, List.length_append]
  have hcrlf : kCRLF.length = 2 := rfl
  omega

end GetRequest

def wires (gs : List GetRequest) : Bytes :=
  (gs.map GetRequest.wire).flatten

@[simp] theorem wires_cons (g : GetRequest) (gs : List GetRequest) :
    wires (g :: gs) = g.wire ++ wires gs := rfl

/-- How many of the requests are not complete in the first `n` bytes of their stream. -/
def incomplete : List GetRequest → Nat → Nat
  | [], _ => 0
  | g :: gs, n => if n < g.wire.length then gs.length + 1 else incomplete gs (n - g.wire.length)

/-- However the chunks are cut in two, the second part has a chunk for each request that the first
part does not complete. -/
def KeepsUp (gs : List GetRequest) (chunks : List Bytes) : Prop :=
  ∀ front back, chunks = front ++ back → incomplete gs front.flatten.length ≤ back.length

theorem incomplete_le (gs : List GetRequest) (n : Nat) : incomplete gs n ≤ gs.length := by
  induction gs generalizing n with
  | nil => exact le_rfl
  | cons g gs ih =>
    simp only [incomplete, List.length_cons]
    split
    · exact le_rfl
    · exact (ih _).trans (Nat.le_succ _)

theorem incomplete_of_lt {g : GetRequest} {n : Nat} (gs : List GetRequest) (h : n < g.wire.length) :
    incomplete (g :: gs) n = gs.length + 1 := by
  simp only [incomplete, if_pos h]

theorem incomplete_add (g : GetRequest) (gs : List GetRequest) (n : Nat) :
    incomplete (g :: gs) (g.wire.length + n) = incomplete gs n := by
  have hge : ¬ g.wire.length + n < g.wire.length := by omega
  simp only [incomplete, if_neg hge, Nat.add_sub_cancel_left]

theorem incomplete_zero (gs : List GetRequest) : incomplete gs 0 = gs.length := by
  cases gs with
  | nil => rfl
  | cons g gs => rw [incomplete_of_lt gs g.wire_length_pos, List.length_cons]

/-! ## The condition in the middle of a stream -/

/-- What is left to arrive keeps up with the requests `gs`, of which `got` bytes have arrived. -/
def KeepsUpFrom (gs : List GetRequest) (got : Nat) (chunks : List Bytes) : Prop :=
  gs.length ≤ chunks.length ∧
    ∀ front back, chunks = front ++ back → incomplete gs (got + front.flatten.length) ≤ back.length

theorem keepsUpFrom_zero (gs : List GetRequest) (chunks : List Bytes) :
    KeepsUpFrom gs 0 chunks ↔ KeepsUp gs chunks := by
  simp only [KeepsUpFrom, KeepsUp, Nat.zero_add]
  refine ⟨And.right, fun h ↦ ⟨?_, h⟩⟩
  have hstart := h [] chunks rfl
  rwa [List.flatten_nil, List.length_nil, incomplete_zero] at hstart

theorem keepsUpFrom_nil (gs : List GetRequest) (got : Nat) : KeepsUpFrom gs got [] ↔ gs = [] := by
  constructor
  · intro h
    exact List.length_eq_zero_iff.mp (Nat.le_zero.mp h.1)
  · rintro rfl
    exact ⟨le_rfl, fun _ _ _ ↦ Nat.zero_le _⟩

theorem keepsUpFrom_none (got : Nat) (chunks : List Bytes) : KeepsUpFrom [] got chunks :=
  ⟨Nat.zero_le _, fun _ _ _ ↦ Nat.zero_le _⟩

/-- A chunk that completes the first request leaves the others to the chunks behind it. -/
theorem keepsUpFrom_complete {g : GetRequest} {gs : List GetRequest} {got got' : Nat}
    {chunk : Bytes} {chunks : List Bytes} (h : got + chunk.length = g.wire.length + got') :
    KeepsUpFrom (g :: gs) got (chunk :: chunks) ↔ KeepsUpFrom gs got' chunks := by
  have hshift : ∀ front : List Bytes,
      got + (chunk :: front).flatten.length = g.wire.length + (got' + front.flatten.length) := by
    intro front
    rw [List.flatten_cons, List.length_append]
    omega
  constructor
  · rintro ⟨hlen, hcut⟩
    refine ⟨Nat.le_of_succ_le_succ hlen, fun front back hsplit ↦ ?_⟩
    have hcut' := hcut (chunk :: front) back (by rw [hsplit, List.cons_append])
    rwa [hshift, incomplete_add] at hcut'
  · rintro ⟨hlen, hcut⟩
    refine ⟨Nat.succ_le_succ hlen, fun front back hsplit ↦ ?_⟩
    cases front with
    | nil =>
      rw [List.nil_append] at hsplit
      rw [← hsplit]
      exact (incomplete_le _ _).trans (Nat.succ_le_succ hlen)
    | cons first front =>
      rcases List.cons.inj hsplit with ⟨rfl, hrest⟩
      rw [hshift, incomplete_add]
      exact hcut front back hrest

/-- A chunk that does not complete the first request is one chunk lost. -/
theorem keepsUpFrom_incomplete {g : GetRequest} {gs : List GetRequest} {got : Nat} {chunk : Bytes}
    {chunks : List Bytes} (h : got + chunk.length < g.wire.length) :
    KeepsUpFrom (g :: gs) got (chunk :: chunks) ↔
      KeepsUpFrom (g :: gs) (got + chunk.length) chunks := by
  have hshift : ∀ front : List Bytes,
      got + (chunk :: front).flatten.length = got + chunk.length + front.flatten.length := by
    intro front
    rw [List.flatten_cons, List.length_append]
    omega
  constructor
  · rintro ⟨_, hcut⟩
    refine ⟨?_, fun front back hsplit ↦ ?_⟩
    · have hfirst := hcut [chunk] chunks rfl
      rwa [hshift, List.flatten_nil, List.length_nil, Nat.add_zero, incomplete_of_lt gs h] at hfirst
    · rw [← hshift]
      exact hcut (chunk :: front) back (by rw [hsplit, List.cons_append])
  · rintro ⟨hlen, hcut⟩
    refine ⟨hlen.trans (Nat.le_succ _), fun front back hsplit ↦ ?_⟩
    cases front with
    | nil =>
      rw [List.nil_append] at hsplit
      rw [← hsplit]
      exact (incomplete_le _ _).trans (hlen.trans (Nat.le_succ _))
    | cons first front =>
      rcases List.cons.inj hsplit with ⟨rfl, hrest⟩
      rw [hshift]
      exact hcut front back hrest

/-! ## One connection -/

namespace HttpServer

variable (httpCallback_ : HttpCallback) {conn : HttpConnection} {seen chunk rest : Bytes}
  (receiveTime : Timestamp)

/-- The connection stands where a fresh parser would stand behind the bytes `seen`. -/
def CaughtUp (conn : HttpConnection) (seen : Bytes) : Prop :=
  conn.context.state_ ≠ .GOT_ALL ∧
    ∀ (more : Bytes) (r : Ending HttpContext UInt8 ParseEnd),
      HttpContext.parser.Consumes conn.context.untimed (conn.inputBuffer_ ++ more) r ↔
        HttpContext.parser.Consumes {} (seen ++ more) r

theorem consumes_total (c : HttpContext) (buf : Bytes) (hs : c.state_ ≠ .GOT_ALL) :
    ∃ r, HttpContext.parser.Consumes c.untimed buf r := by
  rcases HttpContext.parseRequest_spec c buf .invalid hs with ⟨r, _, hr⟩
  exact ⟨_, hr⟩

theorem consumes_getRequest (g : GetRequest) (rest : Bytes) :
    HttpContext.parser.Consumes {} (g.wire ++ rest)
      (.halted ⟨.GOT_ALL, g.head.received⟩ rest .gotAll) :=
  (HttpContext.consumes_get_iff g.get List.not_mem_nil (by decide)).mpr rfl

/-- Part of a request is not enough: the parser waits. -/
theorem waits_in_request (g : GetRequest) (h : seen ++ rest = g.wire) (hrest : rest ≠ []) :
    ∃ c left, HttpContext.parser.Consumes {} seen (.waiting c left) := by
  rcases consumes_total {} seen (by simp) with ⟨r, hr⟩
  cases r with
  | waiting c left => exact ⟨c, left, hr⟩
  | halted c left e =>
    -- halting early would leave the end of the request unread
    have hwhole := consumes_getRequest g []
    rw [List.append_nil, ← h] at hwhole
    have hends := (hr.append_of_halted rest).deterministic hwhole
    have hleft : left ++ rest = [] := by injection hends
    exact absurd (List.append_eq_nil_iff.mp hleft).2 hrest

/-- A chunk that completes the request in front gets exactly this request dispatched. -/
theorem handleRead_complete {g : GetRequest} (h : CaughtUp conn seen)
    (hsplit : seen ++ chunk = g.wire ++ rest) :
    ∃ conn', handleRead httpCallback_ conn chunk receiveTime = .ok conn' ∧ CaughtUp conn' rest ∧
      conn'.requests.map HttpRequest.untimed =
        conn.requests.map HttpRequest.untimed ++ [g.head.received] := by
  have hparse := (h.2 chunk _).mpr (hsplit ▸ consumes_getRequest g rest)
  rcases HttpContext.parseRequest_gotAll receiveTime hparse h.1 with
    ⟨s, hcall, hok, hgot, hcontext, hbuf⟩
  rcases handleRead_gotAll httpCallback_ conn hcall hok hgot with
    ⟨conn', hread, hreset, hinput, hrequests⟩
  refine ⟨conn', hread, ⟨?_, fun more r ↦ ?_⟩, ?_⟩
  · rw [hreset]
    simp
  · rw [hreset, hinput, hbuf]
    exact Iff.rfl
  · have hrequest : s.context.request_.untimed = g.head.received :=
      congrArg HttpContext.request_ hcontext
    rw [hrequests, List.map_append, List.map_cons, List.map_nil, hrequest]

/-- A chunk behind which the parser still waits gets nothing dispatched. -/
theorem handleRead_incomplete {c : HttpContext} {left : Bytes} (h : CaughtUp conn seen)
    (hwait : HttpContext.parser.Consumes {} (seen ++ chunk) (.waiting c left)) :
    ∃ conn', handleRead httpCallback_ conn chunk receiveTime = .ok conn' ∧
      CaughtUp conn' (seen ++ chunk) ∧ conn'.requests = conn.requests := by
  have hparse := (h.2 chunk _).mpr hwait
  rcases HttpContext.parseRequest_waiting receiveTime hparse h.1 with
    ⟨s, hcall, hok, hgot, hcontext, hbuf⟩
  have hstate : s.context.state_ ≠ .GOT_ALL := of_decide_eq_false hgot
  refine ⟨_, handleRead_waiting httpCallback_ conn hcall hok hgot, ⟨hstate, fun more r ↦ ?_⟩, rfl⟩
  show HttpContext.parser.Consumes s.context.untimed (s.buf ++ more) r ↔ _
  subst hcontext hbuf
  exact hwait.resume_iff (consumes_total s.context (s.buf ++ more) hstate)

/-- The run of the server over the chunks of what is left of a stream. -/
theorem serve_requests (chunks : List (Bytes × Timestamp)) (gs : List GetRequest) (seen : Bytes)
    (conn : HttpConnection) (h : CaughtUp conn seen)
    (hstream : seen ++ (chunks.map Prod.fst).flatten = wires gs) :
    ∃ conn', serve httpCallback_ conn chunks = .ok conn' ∧
      (conn'.requests.map HttpRequest.untimed =
          conn.requests.map HttpRequest.untimed ++ gs.map (·.head.received) ↔
        KeepsUpFrom gs seen.length (chunks.map Prod.fst)) := by
  induction chunks generalizing gs seen conn with
  | nil =>
    refine ⟨conn, rfl, ?_⟩
    rw [List.map_nil, keepsUpFrom_nil, List.self_eq_append_right, List.map_eq_nil_iff]
  | cons p chunks ih =>
    rcases p with ⟨chunk, receiveTime⟩
    have hstream : seen ++ chunk ++ (chunks.map Prod.fst).flatten = wires gs := by
      rw [List.append_assoc]
      exact hstream
    have hgot : seen.length + chunk.length = (seen ++ chunk).length := List.length_append.symm
    cases gs with
    | nil =>
      -- nothing is left to come, and nothing more is dispatched
      have hnil : seen ++ chunk = [] := (List.append_eq_nil_iff.mp hstream).1
      have hwait : HttpContext.parser.Consumes {} (seen ++ chunk) (.waiting {} []) := by
        rw [hnil]
        exact .wait rfl
      rcases handleRead_incomplete httpCallback_ receiveTime h hwait with
        ⟨conn₁, hread, hcaught, hrequests⟩
      rcases ih [] _ conn₁ hcaught hstream with ⟨conn', hserve, hiff⟩
      refine ⟨conn', by simp only [serve, hread, hserve], ?_⟩
      rw [← hrequests, hiff]
      exact iff_of_true (keepsUpFrom_none _ _) (keepsUpFrom_none _ _)
    | cons g gs =>
      rw [wires_cons] at hstream
      have hcomplete : ∀ left, seen ++ chunk = g.wire ++ left →
          wires gs = left ++ (chunks.map Prod.fst).flatten →
          ∃ conn', serve httpCallback_ conn ((chunk, receiveTime) :: chunks) = .ok conn' ∧
            (conn'.requests.map HttpRequest.untimed =
                conn.requests.map HttpRequest.untimed ++ (g :: gs).map (·.head.received) ↔
              KeepsUpFrom (g :: gs) seen.length (chunk :: chunks.map Prod.fst)) := by
        intro left hsplit hrest
        rcases handleRead_complete httpCallback_ receiveTime h hsplit with
          ⟨conn₁, hread, hcaught, hrequests⟩
        rcases ih gs left conn₁ hcaught hrest.symm with ⟨conn', hserve, hiff⟩
        refine ⟨conn', by simp only [serve, hread, hserve], ?_⟩
        rw [hrequests, List.append_assoc] at hiff
        rw [keepsUpFrom_complete (by rw [hgot, hsplit, List.length_append]), ← hiff]
        exact Iff.rfl
      rcases List.append_eq_append_iff.mp hstream with ⟨left, hwire, hrest⟩ | ⟨left, hsplit, hrest⟩
      · by_cases hleft : left = []
        · subst hleft
          exact hcomplete [] (by simpa using hwire.symm) (by simpa using hrest.symm)
        · rcases waits_in_request g hwire.symm hleft with ⟨c, unread, hwait⟩
          rcases handleRead_incomplete httpCallback_ receiveTime h hwait with
            ⟨conn₁, hread, hcaught, hrequests⟩
          rcases ih (g :: gs) _ conn₁ hcaught hstream with ⟨conn', hserve, hiff⟩
          refine ⟨conn', by simp only [serve, hread, hserve], ?_⟩
          have hpos : 0 < left.length := List.length_pos_iff.mpr hleft
          have hshort : seen.length + chunk.length < g.wire.length := by
            have hlen := congrArg List.length hwire
            simp only [List.length_append] at hlen
            omega
          rw [← hrequests, hiff, List.map_cons, keepsUpFrom_incomplete hshort, hgot]
      · exact hcomplete left hsplit hrest

/-- **Dispatch of a stream.**  After the last chunk of a stream of requests, all of them have been
dispatched, in order, exactly if the chunks keep up with the requests. -/
theorem dispatched_iff (httpCallback_ : HttpCallback) (gs : List GetRequest)
    (chunks : List (Bytes × Timestamp)) (hstream : (chunks.map Prod.fst).flatten = wires gs) :
    ∃ conn, serve httpCallback_ {} chunks = .ok conn ∧
      (conn.requests.map HttpRequest.untimed = gs.map (·.head.received) ↔
        KeepsUp gs (chunks.map Prod.fst)) := by
  have hfresh : CaughtUp {} [] := ⟨by simp, fun _ _ ↦ Iff.rfl⟩
  rcases serve_requests httpCallback_ chunks gs [] {} hfresh hstream with
    ⟨conn, hserve, hiff⟩
  rw [List.length_nil, keepsUpFrom_zero] at hiff
  exact ⟨conn, hserve, hiff⟩

/-- `GET / HTTP/1.1` without headers. -/
def getRoot : GetRequest where
  head := .root .GET (by decide)
  get := rfl

theorem dispatched_iff_getRoot :
    ∃ conn, serve defaultHttpCallback {} [(getRoot.wire, .invalid)] = .ok conn ∧
      (conn.requests.map HttpRequest.untimed = [getRoot].map (·.head.received) ↔
        KeepsUp [getRoot] [getRoot.wire]) :=
  dispatched_iff defaultHttpCallback [getRoot] [(getRoot.wire, .invalid)] (by decide)

/-- Two requests in one chunk: the second is not dispatched. -/
theorem second_request_not_dispatched :
    ¬ ∀ (httpCallback_ : HttpCallback) (gs : List GetRequest) (chunks : List (Bytes × Timestamp)),
        (∀ p ∈ chunks, p.1 ≠ []) → (chunks.map Prod.fst).flatten = wires gs →
        ∃ conn, serve httpCallback_ {} chunks = .ok conn ∧
          conn.requests.map HttpRequest.untimed = gs.map (·.head.received) := by
  intro h
  have htwo := h defaultHttpCallback [getRoot, getRoot] [(wires [getRoot, getRoot], .invalid)]
    (by simp; decide) (by simp)
  rcases htwo with ⟨conn, hserve, hrequests⟩
  have hone : (serve defaultHttpCallback {} [(wires [getRoot, getRoot], .invalid)]).toOption.map
      (·.requests.length) = some 1 := by decide
  rw [hserve] at hone
  have hdispatched : conn.requests.length = 1 := Option.some.inj hone
  have hlen := congrArg List.length hrequests
  rw [List.length_map, hdispatched] at hlen
  cases hlen

end HttpServer

end Pallette
