import Pallette.Http.Parsing

/-!
# RequestLine — the grammar of the request line, and that the parser accepts nothing else

`RequestLine` is a request line in parts, with the proofs that they are what they are called.
-/

open Reasoning

namespace Pallette

def versionString : HttpRequest.Version → Bytes
  | .HTTP10 => ascii "HTTP/1.0"
  | .HTTP11 => ascii "HTTP/1.1"
  | .UNKONOWN => []

/-- The target is any run of bytes without a space, and may be empty. -/
structure RequestLine where
  method : HttpRequest.Method
  method_known : method ≠ .INVALID
  target : Bytes
  target_word : space ∉ target
  version : HttpRequest.Version
  version_known : version ≠ .UNKONOWN

namespace RequestLine

def wire (l : RequestLine) : Bytes :=
  HttpRequest.methodString l.method ++ space :: (l.target ++ space :: versionString l.version)

/-- The request line, as the request keeps it: the first question mark of the target begins the
query. -/
def opened (l : RequestLine) : HttpRequest :=
  { method_ := l.method
    version_ := l.version
    path_ := l.target.takeWhile (· != 63)
    query_ := l.target.dropWhile (· != 63) }

end RequestLine

/-! ## Words -/

theorem idxOf_word {word : Bytes} {b : UInt8} (h : b ∉ word) (rest : Bytes) :
    (word ++ b :: rest).idxOf b = word.length := by
  rw [List.idxOf_append_of_notMem h, List.idxOf_cons_self, Nat.add_zero]

theorem drop_word (word : Bytes) (b : UInt8) (rest : Bytes) :
    (word ++ b :: rest).drop (word.length + 1) = rest := by
  rw [List.drop_length_add_append]
  rfl

theorem space_not_mem_methodString (m : HttpRequest.Method) :
    space ∉ HttpRequest.methodString m := by
  cases m <;> decide

namespace HttpContext

theorem word_of_idxOf_ne {text : Bytes} {b : UInt8} (h : text.idxOf b ≠ text.length) :
    b ∉ text.take (text.idxOf b) ∧
      text = text.take (text.idxOf b) ++ b :: text.drop (text.idxOf b + 1) := by
  have hlt : text.idxOf b < text.length := List.idxOf_lt_length_iff.mpr (idxOf_ne_length_iff.mp h)
  refine ⟨fun hmem ↦ ?_, ?_⟩
  · have hle := List.idxOf_lt_length_iff.mpr hmem
    have hsame : (text.take (text.idxOf b)).idxOf b = text.idxOf b := by
      conv_rhs => rw [← List.take_append_drop (text.idxOf b) text]
      exact (List.idxOf_append_of_mem hmem).symm
    rw [hsame, List.length_take] at hle
    omega
  · have hget : text[text.idxOf b] = b := List.getElem_idxOf hlt
    conv_lhs => rw [← List.take_append_drop (text.idxOf b) text,
      List.drop_eq_getElem_cons hlt, hget]

theorem methodString_methodOf {m : Bytes} (h : HttpRequest.methodOf m ≠ .INVALID) :
    HttpRequest.methodString (HttpRequest.methodOf m) = m := by
  revert h
  unfold HttpRequest.methodOf
  split_ifs with h₁ h₂ h₃ h₄ h₅ <;> intro h
  · exact h₁.symm
  · exact h₂.symm
  · exact h₃.symm
  · exact h₄.symm
  · exact h₅.symm
  · exact absurd rfl h

/-! ## The target and the version -/

theorem setTarget_eq (r : HttpRequest) (h : r.query_ = []) (target : Bytes) :
    setTarget r target =
      { r with path_ := target.takeWhile (· != 63), query_ := target.dropWhile (· != 63) } := by
  have hidx : target.idxOf 63 = target.findIdx fun b ↦ !(b != 63) := by
    simp only [bne, Bool.not_not]
    rfl
  simp only [setTarget, List.takeWhile_eq_take_findIdx_not,
    List.dropWhile_eq_drop_findIdx_not, ← hidx]
  split
  next => rfl
  next heq =>
    rw [not_not.mp heq, List.take_length, List.drop_length, ← h]

theorem setProtocol_version (r : HttpRequest) {v : HttpRequest.Version} (h : v ≠ .UNKONOWN) :
    setProtocol r (versionString v) = (true, { r with version_ := v }) := by
  cases v with
  | UNKONOWN => exact absurd rfl h
  | HTTP10 => rfl
  | HTTP11 => rfl

theorem setProtocol_true {r r' : HttpRequest} {protocol : Bytes}
    (h : setProtocol r protocol = (true, r')) :
    ∃ v, v ≠ .UNKONOWN ∧ protocol = versionString v ∧ r' = { r with version_ := v } := by
  have hsplit := List.take_append_drop 7 protocol
  unfold setProtocol at h
  split at h
  next hlen =>
    rw [hlen.2] at hsplit
    split at h
    next hone =>
      rw [hone] at hsplit
      cases h
      exact ⟨.HTTP11, by decide, hsplit.symm, rfl⟩
    next =>
      split at h
      next hzero =>
        rw [hzero] at hsplit
        cases h
        exact ⟨.HTTP10, by decide, hsplit.symm, rfl⟩
      next => cases h
  next => cases h

end HttpContext

/-! ## The whole line -/

namespace RequestLine

theorem processRequestLine_wire (l : RequestLine) :
    HttpContext.processRequestLine {} l.wire = some (true, l.opened) := by
  have hsp := idxOf_word (space_not_mem_methodString l.method)
    (l.target ++ space :: versionString l.version)
  have hsp' := idxOf_word l.target_word (versionString l.version)
  have hne : (HttpRequest.methodString l.method).length ≠ l.wire.length := by
    unfold wire
    rw [List.length_append, List.length_cons]
    omega
  have hne' : l.target.length ≠ (l.target ++ space :: versionString l.version).length := by
    rw [List.length_append, List.length_cons]
    omega
  unfold HttpContext.processRequestLine
  rw [wire] at hne ⊢
  simp only [hsp, if_pos hne, List.take_left, drop_word, hsp', if_pos hne', HttpRequest.setMethod,
    if_true, HttpRequest.methodOf_methodString l.method_known, bind, Option.bind, pure,
    ne_eq, l.method_known, not_false_eq_true, decide_true]
  rw [HttpContext.setTarget_eq _ rfl, HttpContext.setProtocol_version _ l.version_known]
  rfl

/-- A line that is accepted is a request line. -/
theorem exists_of_processRequestLine {line : Bytes} {r : HttpRequest}
    (h : HttpContext.processRequestLine {} line = some (true, r)) :
    ∃ l : RequestLine, l.wire = line ∧ l.opened = r := by
  simp only [HttpContext.processRequestLine, HttpRequest.setMethod, if_true, bind, Option.bind,
    pure] at h
  split at h
  next hsp =>
    split at h
    next hknown =>
      split at h
      next hsp' =>
        rw [Option.some.injEq] at h
        obtain ⟨v, hv, hprotocol, rfl⟩ := HttpContext.setProtocol_true h
        have hmethod := of_decide_eq_true hknown
        have hstring := HttpContext.methodString_methodOf hmethod
        obtain ⟨_, hsplit⟩ := HttpContext.word_of_idxOf_ne hsp
        obtain ⟨hword, hsplit'⟩ := HttpContext.word_of_idxOf_ne hsp'
        let l : RequestLine :=
          { method := _, method_known := hmethod
            target := _, target_word := hword
            version := v, version_known := hv }
        refine ⟨l, ?_, ?_⟩
        · show HttpRequest.methodString _ ++ space :: (_ ++ space :: versionString v) = line
          rw [hstring, ← hprotocol, ← hsplit', ← hsplit]
        · have htarget := HttpContext.setTarget_eq
            { method_ := HttpRequest.methodOf (line.take (line.idxOf space)) } rfl l.target
          show l.opened = { HttpContext.setTarget _ l.target with version_ := v }
          rw [htarget]
          rfl
      next => simp only [Option.some.injEq, Prod.mk.injEq, Bool.false_eq_true, false_and] at h
    next => simp only [Option.some.injEq, Prod.mk.injEq, Bool.false_eq_true, false_and] at h
  next => simp only [Option.some.injEq, Prod.mk.injEq, Bool.false_eq_true, false_and] at h

/-- The assertion of `setMethod` holds for a fresh request. -/
theorem exists_processRequestLine (line : Bytes) :
    ∃ ok r, HttpContext.processRequestLine {} line = some (ok, r) := by
  simp only [HttpContext.processRequestLine, HttpRequest.setMethod, if_true, bind,
    Option.bind, pure]
  split
  · split
    · split
      · exact ⟨_, _, rfl⟩
      · exact ⟨_, _, rfl⟩
    · exact ⟨_, _, rfl⟩
  · exact ⟨_, _, rfl⟩

/-- A fresh request accepts a line exactly when it is a request line, and then holds its parts. -/
theorem processRequestLine_iff (line : Bytes) :
    ∃ ok r, HttpContext.processRequestLine {} line = some (ok, r) ∧
      (ok = true ↔ ∃ l : RequestLine, l.wire = line) ∧ ∀ l : RequestLine, l.wire = line →
      r = l.opened := by
  obtain ⟨ok, r, hprocess⟩ := exists_processRequestLine line
  refine ⟨ok, r, hprocess, ⟨?_, ?_⟩, ?_⟩
  · rintro rfl
    obtain ⟨l, hwire, _⟩ := exists_of_processRequestLine hprocess
    exact ⟨l, hwire⟩
  · rintro ⟨l, rfl⟩
    rw [l.processRequestLine_wire] at hprocess
    cases hprocess
    rfl
  · rintro l rfl
    rw [l.processRequestLine_wire] at hprocess
    cases hprocess
    rfl

end RequestLine

end Pallette
