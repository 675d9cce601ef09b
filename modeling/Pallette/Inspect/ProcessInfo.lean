import Pallette.Strings

/-!
# ProcessInfo — the name of a process, from its stat line

The name stands in brackets, and may have brackets itself.
-/

namespace Pallette

namespace ProcessInfo

inductive Fault
  -- `std::length_error`
  | lengthError
  -- a read behind the end of a string or a vector
  | outOfRange
deriving DecidableEq, Repr

def lparen : UInt8 := 40
def rparen : UInt8 := 41

/-- `std::string::max_size()` -/
def kMaxSize : Nat := 2 ^ 63 - 1

/-- `name.assign(text.data() + start, n)`; a zero stands behind the text. -/
def assign (text : Bytes) (start n : Nat) : Except Fault Bytes :=
  if kMaxSize < n then .error .lengthError
  else if text.length + 1 < start + n then .error .outOfRange
  else .ok (((text ++ [0]).drop start).take n)

/-- `static_cast<int>(rp - lp - 2)`, as the `size_t` that `assign` takes. -/
def nameLength (lp rp : Nat) : Nat :=
  (((((rp : Int) - lp - 2) % 2 ^ 64).bmod (2 ^ 32)) % 2 ^ 64).toNat

def procname (stat : Bytes) : Except Fault Bytes :=
  match find lparen stat, rfind rparen stat with
  | some lp, some rp => if lp < rp then assign stat (lp + 1) (nameLength lp rp) else .ok []
  | _, _ => .ok []

variable {before comm rest : Bytes}

/-- The length passed is one less than that of the name. -/
theorem nameLength_cases (lp n : Nat) :
    kMaxSize < nameLength lp (lp + 1 + n) ∨ nameLength lp (lp + 1 + n) + 1 ≤ n := by
  have hlength : ((lp + 1 + n : Nat) : Int) - lp - 2 = (n : Int) - 1 := by omega
  unfold nameLength kMaxSize
  rw [hlength, Int.bmod_def]
  split <;> omega

theorem nameLength_eq {n : Nat} (lp : Nat) (hpos : 0 < n) (hle : n ≤ 2 ^ 31) :
    nameLength lp (lp + 1 + n) = n - 1 := by
  have hlength : ((lp + 1 + n : Nat) : Int) - lp - 2 = (n : Int) - 1 := by omega
  unfold nameLength
  rw [hlength, Int.bmod_def]
  split <;> omega

/-- The text of a name in brackets. -/
def bracketed (before comm rest : Bytes) : Bytes :=
  before ++ lparen :: (comm ++ rparen :: rest)

/-- From the first bracket to the last. -/
theorem procname_bracketed (hbefore : lparen ∉ before) (hrest : rparen ∉ rest) :
    procname (bracketed before comm rest) =
      assign (bracketed before comm rest) (before.length + 1)
        (nameLength before.length (before.length + 1 + comm.length)) := by
  have hlp : find lparen (bracketed before comm rest) = some before.length := find_append hbefore _
  have hrp : rfind rparen (bracketed before comm rest) =
      some (before.length + 1 + comm.length) := by
    have hlast := rfind_append (before ++ lparen :: comm) hrest
    rw [List.append_assoc, List.length_append, List.length_cons] at hlast
    rw [bracketed]
    apply hlast.trans
    congr 1
    omega
  rw [procname, hlp, hrp]
  exact if_pos (by omega)

/-- What is assigned of a name, when the length is not past its end. -/
theorem assign_bracketed {n : Nat} (hle : n ≤ comm.length) (hmax : n ≤ kMaxSize) :
    assign (bracketed before comm rest) (before.length + 1) n = .ok (comm.take n) := by
  have hlength : (bracketed before comm rest).length = before.length + 1 + comm.length + 1 +
      rest.length := by
    rw [bracketed, List.length_append, List.length_cons, List.length_append, List.length_cons]
    omega
  have hdrop : (bracketed before comm rest ++ [0]).drop (before.length + 1) =
      comm ++ (rparen :: rest ++ [0]) := by
    have happend : bracketed before comm rest ++ [0] = (before ++ [lparen]) ++
        (comm ++ (rparen :: rest ++ [0])) := by
      simp [bracketed]
    rw [happend]
    apply List.drop_left'
    rw [List.length_append]
    rfl
  rw [assign, if_neg (by omega), if_neg (by omega), hdrop, List.take_append_of_le_length hle]

/-- The name loses its last byte. -/
theorem procname_dropLast (hbefore : lparen ∉ before) (hrest : rparen ∉ rest) (hpos : comm ≠ [])
    (hle : comm.length ≤ 2 ^ 31) : procname (bracketed before comm rest) = .ok comm.dropLast := by
  have hlength := List.length_pos_iff.mpr hpos
  rw [procname_bracketed hbefore hrest, nameLength_eq before.length hlength hle,
    assign_bracketed (Nat.sub_le _ _) (by unfold kMaxSize; omega), List.dropLast_eq_take]

theorem procname_empty (hbefore : lparen ∉ before) (hrest : rparen ∉ rest) :
    procname (bracketed before [] rest) = .error .lengthError := by
  have hmax := (nameLength_cases before.length 0).resolve_right (by omega)
  rw [procname_bracketed hbefore hrest]
  exact if_pos hmax

/-- No name comes out whole: an empty one makes a length that is out of range, another loses its
end. -/
theorem procname_ne (hbefore : lparen ∉ before) (hrest : rparen ∉ rest) (comm : Bytes) :
    procname (bracketed before comm rest) ≠ .ok comm := by
  rw [procname_bracketed hbefore hrest]
  obtain hmax | hshort := nameLength_cases before.length comm.length
  · rw [assign, if_pos hmax]
    exact nofun
  · by_cases hfits : nameLength before.length (before.length + 1 + comm.length) ≤ kMaxSize
    · rw [assign_bracketed (by omega) hfits]
      intro h
      have hlength := congrArg List.length (Except.ok.inj h)
      rw [List.length_take] at hlength
      omega
    · rw [assign, if_pos (by omega)]
      exact nofun

/-- A name with a blank and brackets in it. -/
theorem procname_ne_bracketed :
    procname (bracketed (ascii "7 ") (ascii "(a b)") (ascii " S 1")) ≠ .ok (ascii "(a b)") :=
  procname_ne (by decide) (by decide) _

theorem not_procname_eq :
    procname (ascii "7 (init) S 1") = .ok (ascii "ini") ∧
    procname (ascii "7 () S 1") = .error .lengthError ∧
      ¬ ∀ before comm rest, lparen ∉ before → rparen ∉ rest →
        procname (bracketed before comm rest) = .ok comm := by
  refine ⟨by decide, by decide, ?_⟩
  intro h
  have hinit := h (ascii "7 ") (ascii "init") (ascii " S 1") (by decide) (by decide)
  revert hinit
  decide

end ProcessInfo

end Pallette
