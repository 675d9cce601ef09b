import Pallette.Basic

/-!
# AppendFile — a file that is only appended to

`fwrite` is the C library's: it takes some of the bytes it is given, from the first on.  `data` is
what it has taken for the file, so that `fflush` changes nothing here.  The file opens, as the
constructor asserts.
-/

namespace Pallette

/-- How many bytes each of the calls that write one line takes. -/
structure Fwrite where
  taken : Nat → Nat → Nat
  taken_le : ∀ call asked, taken call asked ≤ asked

/-- Every byte is taken. -/
def Fwrite.Complete (fwrite : Fwrite) : Prop :=
  ∀ call asked, fwrite.taken call asked = asked

structure AppendFile where
  filename : Bytes
  data : Bytes := []
  writtenBytes_ : Int := 0
deriving DecidableEq, Repr

namespace AppendFile

/-- The file and the result of `fwrite`. -/
def write (fwrite : Fwrite) (file : AppendFile) (call : Nat) (text : Bytes) : AppendFile × Nat :=
  let taken := fwrite.taken call text.length
  ({ file with data := file.data ++ text.take taken }, taken)

/-- The loop, with `n` bytes of the line written. -/
def writeRest (fwrite : Fwrite) (file : AppendFile) (logline : Bytes) (call n : Nat) : AppendFile :=
  let remain := logline.length - n
  if remain = 0 then file
  else
    let written := file.write fwrite call (logline.drop n)
    if written.2 = 0 then written.1
    else written.1.writeRest fwrite logline (call + 1) (n + written.2)
termination_by logline.length - n
decreasing_by
  change logline.length - (n + written.2) < logline.length - n
  omega

/-- The length of the line, not what was taken, is added to `writtenBytes_`. -/
def append (fwrite : Fwrite) (file : AppendFile) (logline : Bytes) : AppendFile :=
  let written := file.write fwrite 0 logline
  let file := written.1.writeRest fwrite logline 1 written.2
  { file with writtenBytes_ := (file.writtenBytes_ + logline.length).bmod (2 ^ 32) }

end AppendFile

/-! ## The calls for one line -/

namespace Fwrite

variable (fwrite : Fwrite) (len : Nat)

/-- The bytes that so many calls take, each of which is given all that is left of a line. -/
def offset : Nat → Nat
  | 0 => 0
  | calls + 1 => offset calls + fwrite.taken calls (len - offset calls)

def count (call : Nat) : Nat :=
  fwrite.taken call (len - fwrite.offset len call)

/-- The call leaves nothing, or it takes nothing.  Behind a first call that takes nothing there is a
second one. -/
def Last (call : Nat) : Prop :=
  fwrite.offset len (call + 1) = len ∨ (call ≠ 0 ∧ fwrite.count len call = 0)

variable {fwrite len} {call last : Nat}

theorem offset_succ : fwrite.offset len (call + 1) = fwrite.offset len call +
    fwrite.count len call :=
  rfl

theorem offset_le (calls : Nat) : fwrite.offset len calls ≤ len := by
  induction calls with
  | zero => exact Nat.zero_le _
  | succ calls ih =>
    have htaken := fwrite.taken_le calls (len - fwrite.offset len calls)
    rw [offset]
    omega

theorem offset_mono {calls more : Nat} (h : calls ≤ more) :
    fwrite.offset len calls ≤ fwrite.offset len more := by
  induction h with
  | refl => exact Nat.le_refl _
  | step _ ih => exact Nat.le_trans ih (Nat.le_add_right _ _)

theorem offset_lt (h : ¬ fwrite.Last len call) : fwrite.offset len (call + 1) < len :=
  Nat.lt_of_le_of_ne (offset_le _) fun hwhole ↦ h (.inl hwhole)

theorem count_ne_zero (h : ¬ fwrite.Last len call) (hne : call ≠ 0) : fwrite.count len call ≠ 0 :=
  fun hzero ↦ h (.inr ⟨hne, hzero⟩)

/-- Each call but the first takes a byte at least. -/
theorem le_offset (h : ∀ earlier ≤ call, ¬ fwrite.Last len earlier) :
    call ≤ fwrite.offset len (call + 1) := by
  induction call with
  | zero => exact Nat.zero_le _
  | succ call ih =>
    have hbefore := ih fun earlier hearlier ↦ h earlier (Nat.le_succ_of_le hearlier)
    have hcount := count_ne_zero (h (call + 1) (Nat.le_refl _)) (Nat.succ_ne_zero call)
    rw [offset_succ]
    omega

/-- For a line of `len` bytes there are at most `len + 1` calls. -/
theorem last_le (h : ∀ earlier < last, ¬ fwrite.Last len earlier) : last ≤ len := by
  cases last with
  | zero => exact Nat.zero_le _
  | succ call =>
    have hcalls := le_offset fun earlier hearlier ↦ h earlier (Nat.lt_succ_of_le hearlier)
    have hleft := offset_lt (h call (Nat.lt_succ_self call))
    omega

end Fwrite

namespace AppendFile

variable {fwrite : Fwrite} {file : AppendFile} {logline : Bytes}

/-- A call writes on where the calls in front of it have stopped. -/
theorem write_eq {call n : Nat} {before : Bytes} (hn : n = fwrite.offset logline.length call)
    (hdata : file.data = before ++ logline.take n) :
    file.write fwrite call (logline.drop n) =
      ({ file with data := before ++ logline.take (fwrite.offset logline.length (call + 1)) },
        fwrite.count logline.length call) := by
  have htaken : fwrite.taken call (logline.drop n).length = fwrite.count logline.length call := by
    unfold Fwrite.count
    rw [List.length_drop, hn]
  unfold write
  dsimp only
  rw [htaken, Fwrite.offset_succ, ← hn, List.take_add, ← List.append_assoc, ← hdata]

/-- The loop goes on until the last call, and what has been taken then is the front of the line. -/
theorem writeRest_spec {call n : Nat} {before : Bytes}
    (hn : n = fwrite.offset logline.length (call + 1))
    (hdata : file.data = before ++ logline.take n)
    (hcount : call ≠ 0 → fwrite.count logline.length call ≠ 0)
    (hfirst : ∀ earlier < call, ¬ fwrite.Last logline.length earlier) :
    ∃ last, fwrite.Last logline.length last ∧
      (∀ earlier < last, ¬ fwrite.Last logline.length earlier) ∧
      file.writeRest fwrite logline (call + 1) n =
        { file with data := before ++ logline.take (fwrite.offset logline.length (last + 1)) } := by
  have hle : n ≤ logline.length := by
    rw [hn]
    exact Fwrite.offset_le _
  generalize hleft : logline.length - n = left
  induction left using Nat.strongRecOn generalizing file call n with
  | ind left ih =>
    rw [writeRest]
    dsimp only
    by_cases hdone : logline.length - n = 0
    · -- nothing is left: the call in front was the last
      refine ⟨call, .inl (by omega), hfirst, ?_⟩
      rw [if_pos hdone, ← hn, ← hdata]
    · have hnot : ¬ fwrite.Last logline.length call := by
        rintro (hwhole | ⟨hne, hzero⟩)
        · omega
        · exact hcount hne hzero
      have hearlier : ∀ earlier < call + 1, ¬ fwrite.Last logline.length earlier := by
        intro earlier hlt
        obtain hlt | rfl := Nat.lt_succ_iff_lt_or_eq.mp hlt
        · exact hfirst earlier hlt
        · exact hnot
      rw [if_neg hdone, write_eq hn hdata]
      dsimp only
      by_cases hzero : fwrite.count logline.length (call + 1) = 0
      · -- a call that takes nothing ends the loop
        refine ⟨call + 1, .inr ⟨Nat.succ_ne_zero call, hzero⟩, hearlier, ?_⟩
        rw [if_pos hzero]
      · have hnext : n + fwrite.count logline.length (call + 1) =
            fwrite.offset logline.length (call + 1 + 1) := by
          rw [Fwrite.offset_succ, hn]
        have hnextLe := @Fwrite.offset_le fwrite logline.length (call + 1 + 1)
        rw [if_neg hzero, hnext]
        exact ih (logline.length - fwrite.offset logline.length (call + 1 + 1)) (by omega) rfl rfl
          (fun _ ↦ hzero)
          hearlier hnextLe rfl

/-- `append` ends with its last call; stdio has the front of the line then. -/
theorem append_spec (fwrite : Fwrite) (file : AppendFile) (logline : Bytes) :
    ∃ last, fwrite.Last logline.length last ∧
      (∀ earlier < last, ¬ fwrite.Last logline.length earlier) ∧
      file.append fwrite logline = { file with
        data := file.data ++ logline.take (fwrite.offset logline.length (last + 1))
        writtenBytes_ := (file.writtenBytes_ + logline.length).bmod (2 ^ 32) } := by
  have hwrite : file.write fwrite 0 logline =
      ({ file with data := file.data ++ logline.take (fwrite.offset logline.length 1) },
        fwrite.count logline.length 0) :=
    @write_eq fwrite file logline 0 0 file.data rfl (List.append_nil _).symm
  have hoffset : fwrite.count logline.length 0 = fwrite.offset logline.length 1 := by
    rw [Fwrite.offset_succ, Fwrite.offset, Nat.zero_add]
  unfold append
  dsimp only
  rw [hwrite]
  dsimp only
  obtain ⟨last, hlast, hnot, hrest⟩ := @writeRest_spec fwrite
    { file with data := file.data ++ logline.take (fwrite.offset logline.length 1) } logline 0
    (fwrite.count logline.length 0) file.data hoffset (by rw [hoffset]) (fun h ↦ absurd rfl h)
    (fun _ h ↦ absurd h (Nat.not_lt_zero _))
  refine ⟨last, hlast, hnot, ?_⟩
  rw [hrest]

/-- When `fwrite` takes all it is given, one call writes the line. -/
theorem append_complete (h : fwrite.Complete) :
    file.append fwrite logline = { file with
      data := file.data ++ logline
      writtenBytes_ := (file.writtenBytes_ + logline.length).bmod (2 ^ 32) } := by
  have hwrite : file.write fwrite 0 logline = ({ file with data := file.data ++ logline },
      logline.length) := by
    unfold write
    dsimp only
    rw [h, List.take_length]
  unfold append
  dsimp only
  rw [hwrite, writeRest]
  dsimp only
  rw [if_pos (Nat.sub_self _)]

end AppendFile

end Pallette
