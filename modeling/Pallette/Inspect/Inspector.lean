import Pallette.Strings
import Pallette.Http.HttpRequest
import Pallette.Http.HttpResponse

/-!
# Inspector — the commands that are reached over HTTP, and the page that lists them

The page is made from `helps_`, and a request is dispatched through `modules_`.  A callback is known
by a name of type `κ`, and `run` says what it returns; the calls made are returned next to the
response.
-/

open Reasoning

namespace Pallette

structure Inspector (κ : Type) where
  modules_ : OrdMap Bytes (OrdMap Bytes (Option κ)) := .empty
  helps_ : OrdMap Bytes (OrdMap Bytes Bytes) := .empty

namespace Inspector

variable {κ : Type} {ins : Inspector κ} {module command : Bytes}

/-- The loop of `split` from `start` on. -/
def split (str : Bytes) : List Bytes :=
  match _hpos : find slash str with
  | some pos => (if 0 < pos then [str.take pos] else []) ++ split (str.drop (pos + 1))
  | none => if 0 < str.length then [str] else []
termination_by str.length
decreasing_by
  have hlt := find_lt _hpos
  rw [List.length_drop]
  omega

def add (ins : Inspector κ) (module command : Bytes) (cb : Option κ) (help : Bytes) :
    Inspector κ where
  modules_ := ins.modules_.insertAt module command cb
  helps_ := ins.helps_.insertAt module command help

def remove (ins : Inspector κ) (module command : Bytes) : Inspector κ :=
  match ins.modules_.find? module with
  | some commands =>
      { modules_ := ins.modules_.insert module (commands.erase command)
        helps_ := ins.helps_.eraseAt module command }
  | none => ins

/-! ## Requests -/

structure Call (κ : Type) where
  callback : κ
  method : HttpRequest.Method
  args : List Bytes

def indexLine (module command help : Bytes) : Bytes :=
  let len := module.length + command.length
  ascii "/" ++ module ++ ascii "/" ++ command ++
    List.replicate (if 25 ≤ len then 1 else 25 - len) space ++ help ++ ascii "\n"

def indexPage (helps_ : OrdMap Bytes (OrdMap Bytes Bytes)) : Bytes :=
  helps_.entries.flatMap fun helpListI ↦ helpListI.2.entries.flatMap fun it ↦
    indexLine helpListI.1 it.1 it.2

/-- The settings every answer with a body makes. -/
def okResponse (resp : HttpResponse) (contentType body : Bytes) : HttpResponse :=
  (((resp.setStatusCode .K200_OK).setStatusMessage (ascii "OK")).setContentType
    contentType).setBody body

def notFound (resp : HttpResponse) : HttpResponse :=
  (resp.setStatusCode .K404_NOT_FOUND).setStatusMessage (ascii "Not Found")

def onRequest (run : κ → HttpRequest.Method → List Bytes → Bytes) (favicon : Bytes)
    (ins : Inspector κ) (req : HttpRequest) (resp : HttpResponse) : HttpResponse × List (Call κ) :=
  if req.path_ = ascii "/" then (okResponse resp (ascii "text/plain") (indexPage ins.helps_), [])
  else
    match split req.path_ with
    | [] => (notFound resp, [])
    | [module] =>
        if module = ascii "favicon.ico" then (okResponse resp (ascii "image/png") favicon, [])
        else (notFound resp, [])
    | module :: command :: args =>
        match ins.modules_.find? module with
        | some commList =>
            match commList.find? command with
            | some (some cb) =>
                (okResponse resp (ascii "text/plain") (run cb req.method_ args),
                  [⟨cb, req.method_, args⟩])
            | _ => (notFound resp, [])
        | none => (notFound resp, [])

/-! ## Segments -/

/-- The segments are the non-empty pieces between slashes. -/
theorem split_eq (str : Bytes) : split str = words slash str := by
  by_cases hslash : slash ∈ str
  · obtain ⟨before, rest, hstr, hbefore⟩ := List.eq_append_cons_of_mem hslash
    have hfind : find slash str = some before.length := by
      rw [hstr]
      exact find_append hbefore rest
    have htake : str.take before.length = before := by
      rw [hstr]
      exact List.take_left
    have hdrop : str.drop (before.length + 1) = rest := by
      rw [hstr, ← List.drop_drop, List.drop_left]
      rfl
    have ih := split_eq rest
    rw [split]
    split
    next pos hpos =>
      rw [hfind] at hpos
      cases hpos
      rw [htake, hdrop, ih, hstr]
      by_cases hempty : before = []
      · rw [hempty, List.length_nil, if_neg (Nat.lt_irrefl 0), List.nil_append, List.nil_append,
          words_cons_sep]
      · rw [if_pos (List.length_pos_iff.mpr hempty), words_word_append hempty hbefore]
        rfl
    next hnone =>
      rw [hfind] at hnone
      cases hnone
  · rw [split]
    split
    next pos hpos =>
      rw [find_of_notMem hslash] at hpos
      cases hpos
    next =>
      by_cases hempty : str = []
      · rw [hempty, words_nil]
        rfl
      · rw [if_pos (List.length_pos_iff.mpr hempty), words_of_notMem hempty hslash]
termination_by str.length
decreasing_by
  rw [hstr, List.length_append, List.length_cons]
  omega

structure IsName (name : Bytes) : Prop where
  ne_nil : name ≠ []
  notMem : slash ∉ name

/-- A path with the segments, each with the number of slashes in front of it that are too many. -/
def pathOf (trailing : Nat) : List (Nat × Bytes) → Bytes
  | [] => List.replicate trailing slash
  | (extra, segment) :: rest => List.replicate (extra + 1) slash ++
      (segment ++ pathOf trailing rest)

theorem pathOf_head (trailing : Nat) (segments : List (Nat × Bytes)) :
    pathOf trailing segments = [] ∨ ∃ tail, pathOf trailing segments = slash :: tail := by
  cases segments with
  | nil =>
    cases trailing with
    | zero => exact .inl rfl
    | succ trailing => exact .inr ⟨_, rfl⟩
  | cons segment segments => exact .inr ⟨_, rfl⟩

/-- Slashes in a row and at the end make no segment. -/
theorem split_pathOf (trailing : Nat) {segments : List (Nat × Bytes)}
    (h : ∀ segment ∈ segments, IsName segment.2) :
    split (pathOf trailing segments) = segments.map Prod.snd := by
  rw [split_eq]
  induction segments with
  | nil => exact words_replicate_sep trailing
  | cons segment segments ih =>
    have hname := h segment List.mem_cons_self
    rw [pathOf, words_replicate, words_cons_of_head hname.ne_nil hname.notMem
      (pathOf_head trailing segments),
      ih fun segment hsegment ↦ h segment (List.mem_cons_of_mem _ hsegment)]
    rfl

/-! ## Additions and removals -/

inductive Op (κ : Type)
  | add (module command : Bytes) (cb : Option κ) (help : Bytes)
  | remove (module command : Bytes)

def apply (ins : Inspector κ) : Op κ → Inspector κ
  | .add module command cb help => ins.add module command cb help
  | .remove module command => ins.remove module command

/-- The calls that are allowed: names that can be a segment, and a callback that is not null. -/
def Op.Proper : Op κ → Prop
  | .add module command cb _ => IsName module ∧ IsName command ∧ cb.isSome
  | .remove module command => IsName module ∧ IsName command

/-- What is registered under each pair of names: the callback and the help of the last `add`, unless
a `remove` came behind it. -/
abbrev Registry (κ : Type) := Bytes → Bytes → Option (Option κ × Bytes)

def Registry.record (registry : Registry κ) : Op κ → Registry κ
  | .add module command cb help => fun m c ↦
      if m = module ∧ c = command then some (cb, help) else registry m c
  | .remove module command => fun m c ↦ if m = module ∧ c = command then none else registry m c

theorem Registry.record_add (registry : Registry κ) (module command : Bytes) (cb : Option κ)
    (help : Bytes) (m c : Bytes) : registry.record (.add module command cb help) m c =
      if m = module ∧ c = command then some (cb, help) else registry m c :=
  rfl

theorem Registry.record_remove (registry : Registry κ) (module command m c : Bytes) :
    registry.record (.remove module command) m c =
      if m = module ∧ c = command then none else registry m c :=
  rfl

/-- The registry behind a sequence of calls. -/
def registered (ops : List (Op κ)) : Registry κ :=
  ops.foldl Registry.record fun _ _ ↦ none

/-- Both maps hold what is registered, under proper names and with no null callback. -/
structure Agrees (ins : Inspector κ) (registry : Registry κ) : Prop where
  modules : ∀ m c, ins.modules_.findAt? m c = (registry m c).map Prod.fst
  helps : ∀ m c, ins.helps_.findAt? m c = (registry m c).map Prod.snd
  proper : ∀ m c entry, registry m c = some entry → IsName m ∧ IsName c ∧ entry.1.isSome

variable {registry : Registry κ} {op : Op κ}

theorem Agrees.add (h : Agrees ins registry) {cb : Option κ} {help : Bytes}
    (hop : (Op.add module command cb help).Proper) :
    Agrees (ins.add module command cb help) (registry.record (.add module command cb help)) where
  modules m c := by
    unfold Inspector.add
    rw [OrdMap.findAt?_insertAt, Registry.record_add, h.modules]
    split <;> rfl
  helps m c := by
    unfold Inspector.add
    rw [OrdMap.findAt?_insertAt, Registry.record_add, h.helps]
    split <;> rfl
  proper m c entry hentry := by
    rw [Registry.record_add] at hentry
    split at hentry
    next heq =>
      obtain ⟨rfl, rfl⟩ := heq
      cases hentry
      exact hop
    next => exact h.proper m c entry hentry

theorem Agrees.remove (h : Agrees ins registry) :
    Agrees (ins.remove module command) (registry.record (.remove module command)) := by
  have hproper : ∀ m c entry, registry.record (.remove module command) m c = some entry →
      IsName m ∧ IsName c ∧ entry.1.isSome := by
    intro m c entry hentry
    rw [Registry.record_remove] at hentry
    split at hentry
    · cases hentry
    · exact h.proper m c entry hentry
  unfold Inspector.remove
  split
  next commands hcommands =>
    have herase : ins.modules_.insert module (commands.erase command) =
        ins.modules_.eraseAt module command := by
      rw [OrdMap.eraseAt, hcommands]
      rfl
    rw [herase]
    refine ⟨?_, ?_, hproper⟩
    · intro m c
      rw [OrdMap.findAt?_eraseAt, Registry.record_remove, h.modules]
      split <;> rfl
    · intro m c
      rw [OrdMap.findAt?_eraseAt, Registry.record_remove, h.helps]
      split <;> rfl
  next hnone =>
    -- nothing is registered under the module
    have hunregistered : registry.record (.remove module command) = registry := by
      funext m c
      rw [Registry.record_remove]
      split
      next heq =>
        obtain ⟨rfl, rfl⟩ := heq
        have hmodules := h.modules m c
        rw [OrdMap.findAt?, hnone] at hmodules
        exact (Option.map_eq_none_iff.mp hmodules.symm).symm
      next => rfl
    rw [hunregistered]
    exact h

theorem Agrees.apply (h : Agrees ins registry) (hop : op.Proper) :
    Agrees (ins.apply op) (registry.record op) := by
  cases op with
  | add module command cb help => exact h.add hop
  | remove module command => exact h.remove

theorem Agrees.foldl (h : Agrees ins registry) {ops : List (Op κ)} (hops : ∀ op ∈ ops, op.Proper) :
    Agrees (ops.foldl Inspector.apply ins) (ops.foldl Registry.record registry) := by
  induction ops generalizing ins registry with
  | nil => exact h
  | cons op ops ih =>
    exact ih (h.apply (hops op List.mem_cons_self)) fun op hop ↦
      hops op (List.mem_cons_of_mem _ hop)

theorem agrees_new : Agrees ({} : Inspector κ) fun _ _ ↦ none where
  modules _ _ := rfl
  helps _ _ := rfl
  proper _ _ _ := nofun

/-! ## The page and the dispatch -/

theorem indexPage_eq (helps_ : OrdMap Bytes (OrdMap Bytes Bytes)) :
    indexPage helps_ = helps_.entriesAt.flatMap fun e ↦ indexLine e.1 e.2.1 e.2.2 := by
  unfold indexPage OrdMap.entriesAt
  rw [List.flatMap_assoc]
  apply List.flatMap_congr
  intro helpListI _
  rw [List.flatMap_map]

variable {run : κ → HttpRequest.Method → List Bytes → Bytes} {favicon : Bytes} {req : HttpRequest}
  {resp : HttpResponse} {args : List Bytes}

theorem onRequest_index (h : req.path_ = ascii "/") :
    onRequest run favicon ins req resp =
      (okResponse resp (ascii "text/plain") (indexPage ins.helps_), []) := by
  rw [onRequest, if_pos h]

theorem split_root : split (ascii "/") = [] := by
  rw [split_eq]
  decide

/-- A request with a module and a command, as the map of callbacks answers it. -/
theorem onRequest_command (h : split req.path_ = module :: command :: args) :
    onRequest run favicon ins req resp =
      match ins.modules_.findAt? module command with
      | some (some cb) =>
          (okResponse resp (ascii "text/plain") (run cb req.method_ args),
            [⟨cb, req.method_, args⟩])
      | _ => (notFound resp, []) := by
  have hroot : req.path_ ≠ ascii "/" := by
    intro hpath
    rw [hpath, split_root] at h
    cases h
  rw [onRequest, if_neg hroot, h]
  dsimp only
  unfold OrdMap.findAt?
  cases ins.modules_.find? module with
  | none => rfl
  | some commList => rfl

/-- The request is for the command with these arguments, its path with any number of slashes in a
row. -/
def IsFor (req : HttpRequest) (module command : Bytes) (args : List Bytes) : Prop :=
  ∃ trailing segments, (∀ segment ∈ segments, IsName segment.2) ∧
    segments.map Prod.snd = module :: command :: args ∧ req.path_ = pathOf trailing segments

/-- Every request for the command runs the callback once, with exactly its arguments, and answers
200 with what it returns. -/
def Answers (run : κ → HttpRequest.Method → List Bytes → Bytes) (favicon : Bytes)
    (ins : Inspector κ) (module command : Bytes) (cb : κ) : Prop :=
  ∀ req resp args, IsFor req module command args → onRequest run favicon ins req resp =
    (okResponse resp (ascii "text/plain") (run cb req.method_ args), [⟨cb, req.method_, args⟩])

/-- Every request for the command is answered 404, and runs nothing. -/
def Refuses (run : κ → HttpRequest.Method → List Bytes → Bytes) (favicon : Bytes)
    (ins : Inspector κ) (module command : Bytes) : Prop :=
  ∀ req resp args, IsFor req module command args →
    onRequest run favicon ins req resp = (notFound resp, [])

theorem IsFor.split_path (h : IsFor req module command args) :
    split req.path_ = module :: command :: args := by
  obtain ⟨trailing, segments, hnames, hsegments, hpath⟩ := h
  rw [hpath, split_pathOf trailing hnames, hsegments]

theorem Agrees.answers (h : Agrees ins registry) {cb : κ} {help : Bytes}
    (hentry : registry module command = some (some cb, help)) :
    Answers run favicon ins module command cb := by
  intro req resp args hfor
  rw [onRequest_command hfor.split_path, h.modules, hentry]
  rfl

theorem Agrees.refuses (h : Agrees ins registry) (hentry : registry module command = none) :
    Refuses run favicon ins module command := by
  intro req resp args hfor
  rw [onRequest_command hfor.split_path, h.modules, hentry]
  rfl

/-- Whatever was added and removed, the page has one line for each command that a request can run,
with its last help, and what runs is the callback added last. -/
theorem index_lists_answered (run : κ → HttpRequest.Method → List Bytes → Bytes) (favicon : Bytes)
    {ops : List (Op κ)} (hops : ∀ op ∈ ops, op.Proper) :
    ∃ listing : List (Bytes × Bytes × Bytes),
      (∀ req resp, req.path_ = ascii "/" → onRequest run favicon (ops.foldl apply {}) req resp =
        (okResponse resp (ascii "text/plain") (listing.flatMap fun e ↦ indexLine e.1 e.2.1 e.2.2),
        [])) ∧
      (listing.map fun e ↦ (e.1, e.2.1)).Nodup ∧
      (∀ e ∈ listing, IsName e.1 ∧ IsName e.2.1) ∧
      ∀ module command, IsName module → IsName command →
        (∃ cb help, registered ops module command = some (some cb, help) ∧
        (module, command, help) ∈ listing ∧
          Answers run favicon (ops.foldl apply {}) module command cb) ∨
        (registered ops module command = none ∧ (∀ help, (module, command, help) ∉ listing) ∧
          Refuses run favicon (ops.foldl apply {}) module command) := by
  have hagrees : Agrees (ops.foldl apply {}) (registered ops) := agrees_new.foldl hops
  refine ⟨(ops.foldl apply {}).helps_.entriesAt, ?_, OrdMap.nodup_entriesAt _, ?_, ?_⟩
  · intro req resp hroot
    rw [onRequest_index hroot, indexPage_eq]
  · rintro ⟨m, c, help⟩ hlisted
    rw [OrdMap.mem_entriesAt_iff, hagrees.helps] at hlisted
    obtain ⟨entry, hentry, -⟩ := Option.map_eq_some_iff.mp hlisted
    obtain ⟨hm, hc, -⟩ := hagrees.proper m c entry hentry
    exact ⟨hm, hc⟩
  · intro m c _ _
    cases hentry : registered ops m c with
    | none =>
      refine .inr ⟨rfl, ?_, hagrees.refuses hentry⟩
      intro help
      rw [OrdMap.mem_entriesAt_iff, hagrees.helps, hentry]
      exact nofun
    | some entry =>
      obtain ⟨callback, help⟩ := entry
      obtain ⟨cb, rfl⟩ := Option.isSome_iff_exists.mp (hagrees.proper m c _ hentry).2.2
      refine .inl ⟨cb, help, rfl, ?_, hagrees.answers hentry⟩
      rw [OrdMap.mem_entriesAt_iff, hagrees.helps, hentry]
      rfl

/-- A command added twice: a request runs the second callback. -/
theorem index_lists_answered_twice :
    Answers (fun n _ args ↦ n :: args.flatten) []
      ([Op.add (ascii "proc") (ascii "pid") (some (1 : UInt8)) (ascii "a"),
      .add (ascii "proc") (ascii "pid") (some 2) (ascii "b"),
      .remove (ascii "sys") (ascii "pid")].foldl apply {})
      (ascii "proc") (ascii "pid") 2 := by
  have hname : ∀ name, name = ascii "proc" ∨ name = ascii "pid" ∨ name = ascii "sys" →
      IsName name := by
    rintro name (rfl | rfl | rfl) <;> exact ⟨by decide, by decide⟩
  have hproc := hname (ascii "proc") (.inl rfl)
  have hpid := hname (ascii "pid") (.inr (.inl rfl))
  have hsys := hname (ascii "sys") (.inr (.inr rfl))
  have hops : ∀ op ∈ [Op.add (ascii "proc") (ascii "pid") (some (1 : UInt8)) (ascii "a"),
      .add (ascii "proc") (ascii "pid") (some 2) (ascii "b"), .remove (ascii "sys") (ascii "pid")],
      op.Proper := by
    intro op hop
    simp only [List.mem_cons, List.not_mem_nil, or_false] at hop
    obtain rfl | rfl | rfl := hop
    · exact ⟨hproc, hpid, rfl⟩
    · exact ⟨hproc, hpid, rfl⟩
    · exact ⟨hsys, hpid⟩
  obtain ⟨listing, -, -, -, hcommands⟩ :=
    index_lists_answered (fun n _ args ↦ n :: args.flatten) [] hops
  obtain ⟨cb, help, hentry, -, hanswers⟩ | ⟨hnone, -, -⟩ := hcommands _ _ hproc hpid
  · have hlast : some (some cb, help) = some (some 2, ascii "b") := hentry.symm.trans (by decide)
    cases hlast
    exact hanswers
  · exact absurd hnone (by decide)

end Inspector

end Pallette
