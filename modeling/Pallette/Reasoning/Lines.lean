import Pallette.Reasoning.Search

/-!
# Lines — text in lines, and items read one after the other

A line ends in a mark of two symbols, `cr` and `lf`.  `splitLines` undoes writing lines with the
mark between them; `search_blank_line` finds the first empty line behind lines that are not empty.
`decodeAll_encode` reads a stream of items back when each of them can be read in front of any other.
-/

namespace Reasoning

variable {α : Type*} [DecidableEq α] {cr lf : α} {line : List α} {lines : List (List α)}

/-- The line begun by `b` and what follows on it, in front of the lines behind. -/
def consLine (b : α) : List (List α) → List (List α)
  | [] => [[b]]
  | line :: lines => (b :: line) :: lines

def splitLines (cr lf : α) : List α → List (List α)
  | [] => [[]]
  | [b] => [[b]]
  | b :: b' :: rest =>
      if b = cr ∧ b' = lf then [] :: splitLines cr lf rest
      else consLine b (splitLines cr lf (b' :: rest))

theorem splitLines_cons {b : α} (h : b ≠ cr) (rest : List α) :
    splitLines cr lf (b :: rest) = consLine b (splitLines cr lf rest) := by
  cases rest with
  | nil => rfl
  | cons b' rest => rw [splitLines, if_neg (fun heq ↦ h heq.1)]

theorem splitLines_ne_nil (xs : List α) : splitLines cr lf xs ≠ [] := by
  have hcons (b : α) (lines : List (List α)) : consLine b lines ≠ [] := by
    cases lines <;> exact List.cons_ne_nil _ _
  unfold splitLines
  split
  · exact List.cons_ne_nil _ _
  · exact List.cons_ne_nil _ _
  · split
    · exact List.cons_ne_nil _ _
    · exact hcons _ _

theorem splitLines_line (h : cr ∉ line) : splitLines cr lf line = [line] := by
  induction line with
  | nil => rfl
  | cons b line ih =>
    rw [List.mem_cons, not_or] at h
    rw [splitLines_cons (Ne.symm h.1), ih h.2]
    rfl

theorem splitLines_append (h : cr ∉ line) (rest : List α) :
    splitLines cr lf (line ++ [cr, lf] ++ rest) = line :: splitLines cr lf rest := by
  induction line with
  | nil => simp [splitLines]
  | cons b line ih =>
    rw [List.mem_cons, not_or] at h
    rw [List.cons_append, List.cons_append, splitLines_cons (Ne.symm h.1), ih h.2]
    rfl

/-- A first line ends at a mark, at the latest. -/
theorem splitLines_first (xs ys : List α) :
    ∃ line lines, splitLines cr lf (xs ++ cr :: lf :: ys) = line :: lines ∧
      line.length ≤ xs.length := by
  induction xs with
  | nil => exact ⟨[], splitLines cr lf
      ys, by rw [List.nil_append, splitLines, if_pos ⟨rfl, rfl⟩], le_rfl⟩
  | cons b xs ih =>
    obtain ⟨line, lines, hsplit, hle⟩ := ih
    obtain ⟨b', rest, hrest⟩ : ∃ b' rest, xs ++ cr :: lf :: ys = b' :: rest :=
      List.exists_cons_of_ne_nil (List.append_ne_nil_of_right_ne_nil _ (List.cons_ne_nil _ _))
    rw [List.cons_append, hrest, splitLines]
    by_cases hmark : b = cr ∧ b' = lf
    · rw [if_pos hmark]
      exact ⟨[], _, rfl, Nat.zero_le _⟩
    · rw [if_neg hmark, ← hrest, hsplit]
      exact ⟨b :: line, lines, rfl, Nat.succ_le_succ hle⟩

theorem splitLines_flatten (h : ∀ line ∈ lines, cr ∉ line) (rest : List α) :
    splitLines cr lf ((lines.map (· ++ [cr, lf])).flatten ++ rest) =
      lines ++ splitLines cr lf rest := by
  induction lines with
  | nil => rfl
  | cons line lines ih =>
    have hrest := ih fun l hl ↦ h l (List.mem_cons_of_mem _ hl)
    rw [List.map_cons, List.flatten_cons, List.append_assoc (line ++ [cr, lf]),
      splitLines_append (h line List.mem_cons_self), hrest]
    rfl

/-- Lines written with the mark between them are found again. -/
theorem splitLines_intercalate (hne : lines ≠ []) (h : ∀ line ∈ lines, cr ∉ line) :
    splitLines cr lf ([cr, lf].intercalate lines) = lines := by
  induction lines with
  | nil => exact absurd rfl hne
  | cons line lines ih =>
    have hline := h line List.mem_cons_self
    cases lines with
    | nil => rw [List.intercalate_singleton, splitLines_line hline]
    | cons line' lines =>
      rw [List.intercalate_cons_cons, splitLines_append hline,
        ih (by simp) fun l hl ↦ h l (List.mem_cons_of_mem _ hl)]

omit [DecidableEq α] in
theorem intercalate_append (sep : List α) (hne : lines ≠ []) :
    sep.intercalate lines ++ sep = (lines.map (· ++ sep)).flatten := by
  induction lines with
  | nil => exact absurd rfl hne
  | cons line lines ih =>
    cases lines with
    | nil => simp
    | cons line' lines =>
      rw [List.intercalate_cons_cons, List.append_assoc, ih (by simp)]
      simp

/-- A pattern does not start in front of its first symbol. -/
theorem search_append_of_not_mem {pat : List α} (h : cr ∉ line) (rest : List α) :
    search (cr :: pat) (line ++ rest) = (search (cr :: pat) rest).map (· + line.length) := by
  induction line with
  | nil => simp
  | cons b line ih =>
    rw [List.mem_cons, not_or] at h
    have hskip : ¬ cr :: pat <+: b :: (line ++ rest) := fun hpre ↦
      h.1 (List.cons_prefix_cons.mp hpre).1
    rw [List.cons_append, search_cons_skip hskip, ih h.2, Option.map_map]
    congr 1

/-- The first blank line is the one behind the lines. -/
theorem search_blank_line (hcr : cr ≠ lf) (hne : lines ≠ [])
    (h : ∀ line ∈ lines, line ≠ [] ∧ cr ∉ line) (rest : List α) :
    search [cr, lf, cr, lf] ([cr, lf].intercalate lines ++ [cr, lf, cr, lf] ++ rest) =
      some ([cr, lf].intercalate lines).length := by
  induction lines with
  | nil => exact absurd rfl hne
  | cons line lines ih =>
    have hline := (h line List.mem_cons_self).2
    cases lines with
    | nil =>
      rw [List.intercalate_singleton, List.append_assoc, search_append_of_not_mem hline,
        search_prefix (List.prefix_append _ _)]
      simp
    | cons line' lines =>
      have hrest := ih (by simp) fun l hl ↦ h l (List.mem_cons_of_mem _ hl)
      -- the mark behind the line is followed by another line, not by a second mark
      have hbegins : ∃ b text, b ≠ cr ∧ [cr, lf].intercalate (line' :: lines) = b :: text := by
        rcases h line' (by simp) with ⟨hne', hline'⟩
        rcases List.exists_cons_of_ne_nil hne' with ⟨b, text, rfl⟩
        rw [List.mem_cons, not_or] at hline'
        exact ⟨b, _, Ne.symm hline'.1, List.intercalate_cons_cons_left⟩
      rcases hbegins with ⟨b, text, hb, htext⟩
      have hskip : ¬ [cr, lf, cr, lf] <+: cr :: lf :: b :: (text ++ [cr, lf, cr, lf] ++ rest) := by
        simp [Ne.symm hb]
      have hskip' : ¬ [cr, lf, cr, lf] <+: lf :: b :: (text ++ [cr, lf, cr, lf] ++ rest) := by
        simp [hcr]
      have hmark : search [cr, lf, cr, lf]
          (cr :: lf :: ([cr, lf].intercalate (line' :: lines) ++ [cr, lf, cr, lf] ++ rest)) =
            some (([cr, lf].intercalate (line' :: lines)).length + 1 + 1) := by
        rw [htext] at hrest ⊢
        rw [List.cons_append, List.cons_append, search_cons_skip hskip, search_cons_skip hskip',
          ← List.cons_append, ← List.cons_append, hrest]
        rfl
      rw [List.intercalate_cons_cons]
      simp only [List.append_assoc, List.cons_append, List.nil_append] at hmark ⊢
      rw [search_append_of_not_mem hline, hmark, Option.map_some]
      simp only [List.length_append, List.length_cons, Option.some.injEq]
      omega

/-! ## Items -/

section

variable {β γ : Type*} {decode : List α → Option (γ × List α)} {encode : β → List α} {value : β → γ}

/-- Reads items until the stream is at its end, `fuel` of them at most. -/
def decodeAll (decode : List α → Option (γ × List α)) : Nat → List α → Option (List γ)
  | _, [] => some []
  | 0, _ :: _ => none
  | fuel + 1, b :: stream =>
      match decode (b :: stream) with
      | none => none
      | some (item, rest) => (decodeAll decode fuel rest).map (item :: ·)

omit [DecidableEq α] in
theorem length_le_flatten {items : List β} (hencode : ∀ x ∈ items, encode x ≠ []) :
    items.length ≤ (items.map encode).flatten.length := by
  induction items with
  | nil => exact le_rfl
  | cons x items ih =>
    have hx := List.length_pos_iff.mpr (hencode x List.mem_cons_self)
    have hrest := ih fun y hy ↦ hencode y (List.mem_cons_of_mem _ hy)
    rw [List.map_cons, List.flatten_cons, List.length_append, List.length_cons]
    omega

omit [DecidableEq α] in
/-- **Stream.**  Items that are read back in front of anything are read back from their stream. -/
theorem decodeAll_encode {items : List β} {fuel : Nat}
    (hdecode : ∀ x ∈ items, ∀ rest, decode (encode x ++ rest) = some (value x, rest))
    (hencode : ∀ x ∈ items, encode x ≠ []) (hfuel : items.length ≤ fuel) :
    decodeAll decode fuel (items.map encode).flatten = some (items.map value) := by
  induction items generalizing fuel with
  | nil => cases fuel <;> rfl
  | cons x items ih =>
    cases fuel with
    | zero => cases hfuel
    | succ fuel =>
      have hx := hdecode x List.mem_cons_self (items.map encode).flatten
      have hrest := @ih fuel (fun y hy ↦ hdecode y (List.mem_cons_of_mem _ hy))
        (fun y hy ↦ hencode y (List.mem_cons_of_mem _ hy)) (Nat.le_of_succ_le_succ hfuel)
      rw [List.map_cons, List.flatten_cons, List.map_cons]
      rcases List.exists_cons_of_ne_nil (hencode x List.mem_cons_self) with ⟨b, text, htext⟩
      rw [htext, List.cons_append] at hx ⊢
      simp only [decodeAll, hx, hrest, Option.map_some]

end

end Reasoning
