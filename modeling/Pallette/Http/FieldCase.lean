import Pallette.Http.Framing

/-!
# FieldCase — the letter case of header names

HTTP takes header names without regard to case.  `headers_` is keyed by the name as it was sent, and
`parseRequest` and `onRequest` look two names up in it.  Changing the case of names is therefore
invisible as long as it leaves these two spellings alone (`feedChunks_recased`), and not otherwise.
-/

open Reasoning

namespace Pallette

/-- A letter in lower case. -/
def toLower (b : UInt8) : UInt8 :=
  if 65 ≤ b ∧ b ≤ 90 then b + 32 else b

namespace HeaderLine

/-- The lines differ in the letter case of the name only. -/
def Recased (h h' : HeaderLine) : Prop :=
  h'.field.map toLower = h.field.map toLower ∧ h'.line.drop h'.colon = h.line.drop h.colon

/-- The names the code looks up. -/
def lookedUp : List Bytes := [HttpContext.contentLengthField, ascii "Connection"]

/-- The lines differ in the letter case of the name only, and neither has one of the looked-up names
in exactly that spelling unless both have. -/
def KeepsNames (h h' : HeaderLine) : Prop :=
  h.Recased h' ∧ ∀ name ∈ lookedUp, h'.field = name ↔ h.field = name

end HeaderLine

/-- The streams differ in the letter case of header names: of complete header lines, each related to
the one it becomes, or of the unfinished line at the end. -/
inductive Recased (rel : HeaderLine → HeaderLine → Prop) : Bytes → Bytes → Prop
  | same {stream : Bytes} : Recased rel stream stream
  | lines {line tail : Bytes} {hs hs' : List HeaderLine} :
      ¬ kCRLF <:+: line → List.Forall₂ rel hs hs' →
      Recased rel (line ++ kCRLF ++ (headersWire hs ++ tail))
        (line ++ kCRLF ++ (headersWire hs' ++ tail))
  | unfinished {line tail tail' : Bytes} {hs hs' : List HeaderLine} :
      ¬ kCRLF <:+: line → List.Forall₂ rel hs hs' → ¬ kCRLF <:+: tail → ¬ kCRLF <:+: tail' →
      tail'.map toLower = tail.map toLower →
      Recased rel (line ++ kCRLF ++ (headersWire hs ++ tail))
        (line ++ kCRLF ++ (headersWire hs' ++ tail'))

/-! ## Header lines -/

namespace HeaderLine

variable {h h' : HeaderLine}

theorem colon_le (h : HeaderLine) : h.colon ≤ h.line.length :=
  List.idxOf_le_length

theorem Recased.length_eq (hr : h.Recased h') : h'.line.length = h.line.length := by
  have hfield := congrArg List.length hr.1
  have hrest := congrArg List.length hr.2
  have hle := h.colon_le
  have hle' := h'.colon_le
  simp only [List.length_map, field, List.length_take, List.length_drop] at hfield hrest
  omega

theorem Recased.value_eq (hr : h.Recased h') : h'.value = h.value := by
  have hrest := congrArg (List.drop 1) hr.2
  simp only [List.drop_drop] at hrest
  rw [value, value, hrest]

end HeaderLine

theorem headersWire_length {hs hs' : List HeaderLine}
    (h : List.Forall₂ HeaderLine.KeepsNames hs hs') :
    (headersWire hs').length = (headersWire hs).length := by
  induction h with
  | nil => rfl
  | @cons a b as bs hline _ ih =>
    have hcons : ∀ (h : HeaderLine) (hs : List HeaderLine),
        headersWire (h :: hs) = h.line ++ kCRLF ++ headersWire hs := fun _ _ ↦ rfl
    simp only [hcons, List.length_append, ih, hline.1.length_eq]

theorem lastValue_recased {name : Bytes} (hname : name ∈ HeaderLine.lookedUp)
    {hs hs' : List HeaderLine} (h : List.Forall₂ HeaderLine.KeepsNames hs hs') :
    lastValue name hs' = lastValue name hs := by
  induction h with
  | nil => rfl
  | @cons a b as bs hline _ ih =>
    rw [lastValue_cons, lastValue_cons, ih, hline.1.value_eq]
    simp only [hline.2 name hname]

namespace HttpContext

variable {c c' : HttpContext} {buf line : Bytes}

def withMap (c : HttpContext) (m : OrdMap Bytes Bytes) : HttpContext :=
  { c with request_ := { c.request_ with headers_ := m } }

/-- The contexts differ in headers that nobody looks up. -/
def Alike (c c' : HttpContext) : Prop :=
  ∃ m, c' = c.withMap m ∧ ∀ name ∈ HeaderLine.lookedUp, m.find? name =
    c.request_.headers_.find? name

theorem Alike.refl (c : HttpContext) : Alike c c :=
  ⟨c.request_.headers_, rfl, fun _ _ ↦ rfl⟩

/-- They do so behind the request line. -/
def AlikeBehind (c c' : HttpContext) : Prop :=
  c.state_ ≠ .EXPECT_REQUEST_LINE ∧ Alike c c'

theorem AlikeBehind.headerLineStep (h : AlikeBehind c c') (hs : c.state_ = .EXPECT_HEADERS)
    (line : Bytes) (n : Nat) :
    Verdict.Rel AlikeBehind (headerLineStep c line n) (headerLineStep c' line n) := by
  rcases h with ⟨_, m, rfl, hm⟩
  have hmethod : (c.withMap m).request_.method_ = c.request_.method_ := rfl
  have hafter : afterHead (c.withMap m) = (afterHead c).withMap m := by
    unfold afterHead
    rw [hmethod]
    split <;> rfl
  have hheaders : (afterHead c).request_.headers_ = c.request_.headers_ := by
    unfold afterHead
    split <;> rfl
  have hbehind : (afterHead c).state_ ≠ .EXPECT_REQUEST_LINE := by
    unfold afterHead
    split <;> simp [hs]
  have halike : AlikeBehind (afterHead c) ((afterHead c).withMap m) :=
    ⟨hbehind, m, rfl, fun name hname ↦ by rw [hheaders, hm name hname]⟩
  simp only [HttpContext.headerLineStep, hmethod, hafter]
  split
  · refine .next ⟨by simp [hs], _, rfl, fun name hname ↦ ?_⟩
    show OrdMap.find? (m.insert _ _) name = OrdMap.find? (c.request_.headers_.insert _ _) name
    rw [OrdMap.find?_insert, OrdMap.find?_insert, hm name hname]
  · split
    · exact .halt halike
    · exact .next halike

theorem AlikeBehind.bodyStep (h : AlikeBehind c c') (buf : Bytes) :
    Verdict.Rel AlikeBehind (bodyStep c buf) (bodyStep c' buf) := by
  rcases h with ⟨hline, m, rfl, hm⟩
  have hget : (c.withMap m).request_.getHeader contentLengthField =
      c.request_.getHeader contentLengthField := by
    show (m.find? contentLengthField).getD [] = _
    rw [hm contentLengthField (by simp [HeaderLine.lookedUp])]
    rfl
  have halike : AlikeBehind c (c.withMap m) := ⟨hline, m, rfl, hm⟩
  simp only [HttpContext.bodyStep, hget]
  split
  · exact .wait
  · split
    · exact .halt halike
    · split
      · exact .halt ⟨by simp, m, rfl, hm⟩
      · exact .wait

/-- Contexts that are alike take the same decisions. -/
theorem AlikeBehind.step (h : AlikeBehind c c') (buf : Bytes) :
    Verdict.Rel AlikeBehind (parseStep c buf) (parseStep c' buf) := by
  have hstate : c'.state_ = c.state_ := by
    rcases h with ⟨_, m, rfl, _⟩
    rfl
  unfold parseStep
  rw [hstate]
  split
  next hline => exact absurd hline h.1
  next hs =>
    split
    · exact .wait
    · exact h.headerLineStep hs _ _
  next => exact h.bodyStep buf
  next => exact .next h

theorem alike_withHeaders {hs hs' : List HeaderLine} (c : HttpContext)
    (h : List.Forall₂ HeaderLine.KeepsNames hs hs') :
    Alike (c.withHeaders hs) (c.withHeaders hs') := by
  refine ⟨headersFrom c.request_.headers_ hs', rfl, fun name hname ↦ ?_⟩
  show (headersFrom c.request_.headers_ hs').find? name =
    (headersFrom c.request_.headers_ hs).find? name
  rw [find?_headersFrom, find?_headersFrom, lastValue_recased hname h]

/-! ## Two runs -/

/-- Behind the same request line, header lines that keep the looked-up names lead to endings that
are alike, if what follows them does. -/
theorem consumes_lines {line tail tail' : Bytes} {hs hs' : List HeaderLine}
    {w : Ending HttpContext UInt8 ParseEnd} (hline : ¬ kCRLF <:+: line)
    (hlines : List.Forall₂ HeaderLine.KeepsNames hs hs') (hlength : tail.length = tail'.length)
    (htail : ∀ c c' w, c.state_ = .EXPECT_HEADERS → Alike c c' → parser.Consumes c tail w →
      ∃ w', parser.Consumes c' tail' w' ∧ Ending.Rel Alike w w')
    (h : parser.Consumes {} (line ++ kCRLF ++ (headersWire hs ++ tail)) w) :
    ∃ w', parser.Consumes {} (line ++ kCRLF ++ (headersWire hs' ++ tail')) w' ∧
      Ending.Rel Alike w w' := by
  -- what the request line makes of it does not depend on the bytes behind
  have hfirst : ∀ rest, parser.step {} (line ++ kCRLF ++ rest) =
      requestLineStep {} line (line.length + kCRLF.length) := by
    intro rest
    show parseStep {} _ = _
    simp only [parseStep, search_line hline, take_line]
  unfold requestLineStep at hfirst
  split at hfirst
  next =>
    rw [Consumer.consumes_iff_of_halt (hfirst _)] at h
    refine ⟨_, .halt (hfirst _), h ▸ .halted (Alike.refl _) ?_⟩
    simp only [List.drop_zero, List.length_append, headersWire_length hlines, hlength]
  next r =>
    rw [Consumer.consumes_iff_of_next (hfirst _), drop_line, consumes_headers_iff hs rfl] at h
    rcases htail _ _ w rfl (alike_withHeaders _ hlines) h with ⟨w', hw', hends⟩
    refine ⟨w', ?_, hends⟩
    rw [Consumer.consumes_iff_of_next (hfirst _), drop_line, consumes_headers_iff hs' rfl]
    exact hw'
  next r =>
    rw [Consumer.consumes_iff_of_halt (hfirst _)] at h
    refine ⟨_, .halt (hfirst _), h ▸ .halted (Alike.refl _) ?_⟩
    simp only [List.drop_zero, List.length_append, headersWire_length hlines, hlength]

theorem consumes_recased {stream stream' : Bytes} {w : Ending HttpContext UInt8 ParseEnd}
    (hcase : Recased HeaderLine.KeepsNames stream stream') (h : parser.Consumes {} stream w) :
    ∃ w', parser.Consumes {} stream' w' ∧ Ending.Rel Alike w w' := by
  cases hcase with
  | same =>
    refine ⟨w, h, ?_⟩
    cases w with
    | waiting c rest => exact .waiting (Alike.refl c) rfl
    | halted c rest e => exact .halted (Alike.refl c) rfl
  | @lines line tail hs hs' hline hlines =>
    refine consumes_lines hline hlines rfl (fun c c' w hstate halike hw ↦ ?_) h
    have hbehind : AlikeBehind c c' := ⟨by simp [hstate], halike⟩
    have hstep : ∀ s t xs, AlikeBehind s t →
        Verdict.Rel AlikeBehind (parser.step s xs) (parser.step t xs) := fun _ _ xs hrel ↦
          hrel.step xs
    rcases hw.simulate hstep hbehind with ⟨w', hw', hends⟩
    exact ⟨w', hw', hends.mono fun _ _ hrel ↦ hrel.2⟩
  | @unfinished line tail tail' hs hs' hline hlines htail htail' hfold =>
    -- folding the case keeps the length
    have hlength : tail.length = tail'.length := by
      have hmap := congrArg List.length hfold
      simpa using hmap.symm
    refine consumes_lines hline hlines hlength (fun c c' w hstate halike hw ↦ ?_) h
    -- without a line end the parser waits, on either side
    have hwaits : ∀ {c : HttpContext} {text : Bytes}, c.state_ = .EXPECT_HEADERS →
        ¬ kCRLF <:+: text → parser.step c text = .wait := by
      intro c text hstate htext
      show parseStep c text = .wait
      simp only [parseStep, hstate, search_eq_none htext]
    have hstate' : c'.state_ = .EXPECT_HEADERS := by
      rcases halike with ⟨m, rfl, _⟩
      exact hstate
    rw [hw.deterministic (.wait (hwaits hstate htail))]
    exact ⟨_, .wait (hwaits hstate' htail'), .waiting halike hlength⟩

end HttpContext

/-- The reader stops alike, at the same byte, and the server decides the same about the request it
has by then. -/
structure FeedResult.SameTreatment (r r' : FeedResult) : Prop where
  outcome : r'.outcome = r.outcome
  unconsumed : r'.unconsumed.length = r.unconsumed.length
  method : r'.context.request_.method_ = r.context.request_.method_
  version : r'.context.request_.version_ = r.context.request_.version_
  path : r'.context.request_.path_ = r.context.request_.path_
  query : r'.context.request_.query_ = r.context.request_.query_
  close : HttpServer.closes r'.context.request_ = HttpServer.closes r.context.request_

namespace HttpContext

theorem Alike.closes_eq {c c' : HttpContext} (h : Alike c c') :
    HttpServer.closes c'.request_ = HttpServer.closes c.request_ := by
  rcases h with ⟨m, rfl, hm⟩
  have hget : (c.withMap m).request_.getHeader (ascii "Connection") =
      c.request_.getHeader (ascii "Connection") := by
    show (m.find? (ascii "Connection")).getD [] = _
    rw [hm (ascii "Connection") (by simp [HeaderLine.lookedUp])]
    rfl
  have hversion : (c.withMap m).request_.version_ = c.request_.version_ := rfl
  simp only [HttpServer.closes, hget, hversion]

theorem sameTreatment_of_rel {w w' : Ending HttpContext UInt8 ParseEnd}
    (h : Ending.Rel Alike w w') :
    (feedResultOf w).SameTreatment (feedResultOf w') := by
  have hcontext : ∀ {c c' : HttpContext} {o : FeedOutcome} {rest rest' : Bytes}, Alike c c' →
      rest.length = rest'.length → FeedResult.SameTreatment ⟨o, c, rest⟩ ⟨o, c', rest'⟩ := by
    intro c c' o rest rest' halike hlength
    have hclose := halike.closes_eq
    rcases halike with ⟨m, rfl, _⟩
    exact ⟨rfl, hlength.symm, rfl, rfl, rfl, rfl, hclose⟩
  cases h with
  | waiting halike hlength => exact hcontext halike hlength
  | @halted c c' rest rest' e halike hlength => cases e <;> exact hcontext halike hlength

/-- **The case of header names.**  Streams that differ in it get the same treatment, however they
are cut into chunks, as long as the names that are looked up keep their spelling. -/
theorem feedChunks_recased {chunks chunks' : List (Bytes × Timestamp)}
    (h : Recased HeaderLine.KeepsNames (chunks.map Prod.fst).flatten
    (chunks'.map Prod.fst).flatten) :
    (feedChunks {} [] chunks).SameTreatment (feedChunks {} [] chunks') := by
  rcases feedChunks_consumes chunks with ⟨w, hw, hr⟩
  rcases feedChunks_consumes chunks' with ⟨w', hw', hr'⟩
  rcases consumes_recased h hw with ⟨w₁, hw₁, hrel⟩
  rw [hw₁.deterministic hw'] at hrel
  have hsame := sameTreatment_of_rel hrel
  rw [← hr, ← hr'] at hsame
  exact ⟨hsame.outcome, hsame.unconsumed, hsame.method, hsame.version, hsame.path, hsame.query,
    hsame.close⟩

def hostLine : HeaderLine := ⟨ascii "Host: a", by decide, by decide⟩
def hostLine' : HeaderLine := ⟨ascii "hOST: a", by decide, by decide⟩

/-- The same `Host`, spelled in two ways. -/
theorem feedChunks_recased_host :
    (feedChunks {} [] [(ascii "GET / HTTP/1.1\r\nHost: a\r\n\r\n", .invalid)]).SameTreatment
      (feedChunks {} [] [(ascii "GET / HTTP/1.1\r\nhOST: a\r\n\r\n", .invalid)]) := by
  have hkeeps : HeaderLine.KeepsNames hostLine hostLine' := ⟨⟨by decide, by decide⟩, by decide⟩
  exact feedChunks_recased (@Recased.lines _ (ascii "GET / HTTP/1.1") kCRLF [hostLine] [hostLine']
    (by decide) (.cons hkeeps .nil))

def lengthLine : HeaderLine := ⟨ascii "Content-Length: 1", by decide, by decide⟩
def lengthLine' : HeaderLine := ⟨ascii "content-length: 1", by decide, by decide⟩

/-- With the length announced in lower case the body is waited for without end. -/
theorem lower_case_length_waits :
    ¬ ∀ chunks chunks' : List (Bytes × Timestamp),
        Recased HeaderLine.Recased (chunks.map Prod.fst).flatten (chunks'.map Prod.fst).flatten →
        (feedChunks {} [] chunks).SameTreatment (feedChunks {} [] chunks') := by
  intro h
  have hcase : lengthLine.Recased lengthLine' := ⟨by decide, by decide⟩
  have hsame := h [(ascii "POST / HTTP/1.1\r\nContent-Length: 1\r\n\r\nx", .invalid)]
    [(ascii "POST / HTTP/1.1\r\ncontent-length: 1\r\n\r\nx", .invalid)]
    (@Recased.lines _ (ascii "POST / HTTP/1.1") (kCRLF ++ ascii "x") [lengthLine] [lengthLine']
      (by decide) (.cons hcase .nil))
  exact absurd hsame.outcome (by decide)

end HttpContext

end Pallette
