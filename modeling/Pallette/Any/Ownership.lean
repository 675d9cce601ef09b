import Pallette.Any
import Pallette.Reasoning.Run
import Mathlib.Logic.Equiv.Basic

/-!
# Ownership — every object has one `any`

`Holds` says what is in the unions, whatever the tables: each object that is alive is in one of
them.  What the tables do keeps that, and `Sound` adds that each `any` has the table of its object.
-/

open Reasoning

namespace Pallette.Any

variable {T V : Type} {requiresAllocation : T → Bool} {s t : State T V} {h : Addr → Option (T × V)}
    {w : T × V}
variable {type : T} {a b src dest lhs rhs : Addr} {o : Nat}

/-- The objects that are alive are those of `h`, each in the union of its address alone. -/
structure Holds (s : State T V) (h : Addr → Option (T × V)) : Prop where
  held : ∀ a w, h a = some w → ∃ o, s.storage a = some o ∧ s.objects o = some w
  apart : ∀ a b o, h a ≠ none → h b ≠ none → s.storage a = some o → s.storage b = some o → a = b
  owned : ∀ o, s.objects o ≠ none → ∃ a, h a ≠ none ∧ s.storage a = some o
  fresh : ∀ o, s.objects o ≠ none → o < s.made

namespace Holds

theorem setVtable (hs : Holds s h) (a : Addr) (vtable : Option T) :
    Holds (s.setVtable a vtable) h :=
  ⟨hs.held, hs.apart, hs.owned, hs.fresh⟩

theorem congr {h' : Addr → Option (T × V)} (hs : Holds s h) (hsame : ∀ a, h a = h' a) :
    Holds s h' :=
  funext hsame ▸ hs

theorem object (hs : Holds s h) (ha : h a = some w) :
    ∃ o, s.object a = .ok (o, w) ∧ s.storage a = some o ∧ s.objects o = some w := by
  obtain ⟨o, hstorage, hobject⟩ := hs.held a w ha
  refine ⟨o, ?_, hstorage, hobject⟩
  simp only [State.object, hstorage, hobject]

theorem lt_made (hs : Holds s h) (ha : h a ≠ none) (hstorage : s.storage a = some o) :
    o < s.made := by
  obtain ⟨w, hw⟩ := Option.ne_none_iff_exists'.mp ha
  obtain ⟨o', hstorage', hobject⟩ := hs.held a w hw
  cases hstorage.symm.trans hstorage'
  exact hs.fresh o (hobject ▸ Option.some_ne_none w)

/-- A new object, in a union with nothing in it. -/
theorem new (hs : Holds s h) (hdest : h dest = none) (w : T × V) :
    Holds (s.new dest w) (Function.update h dest (some w)) := by
  have hsome : ∀ a, a ≠ dest → Function.update h dest (some w) a ≠ none →
      h a ≠ none := fun a had ha ↦ by
    rwa [Function.update_of_ne had] at ha
  have hstorage : ∀ a, a ≠ dest → (s.new dest w).storage a = s.storage a :=
    fun a had ↦ Function.update_of_ne had ..
  have hself : (s.new dest w).storage dest = some s.made := Function.update_self ..
  have hobject : ∀ o, o ≠ s.made → (s.new dest w).objects o = s.objects o :=
    fun o ho ↦ Function.update_of_ne ho ..
  have hmade : (s.new dest w).objects s.made = some w := Function.update_self ..
  refine ⟨fun a w' ha ↦ ?_, fun a b o ha hb hoa hob ↦ ?_, fun o ho ↦ ?_, fun o ho ↦ ?_⟩
  · by_cases had : a = dest
    · subst had
      rw [Function.update_self] at ha
      exact ⟨s.made, hself, hmade.trans ha⟩
    · rw [Function.update_of_ne had] at ha
      obtain ⟨o, ho, hw'⟩ := hs.held a w' ha
      have hlt := hs.fresh o (hw' ▸ Option.some_ne_none w')
      exact ⟨o, (hstorage a had).trans ho, (hobject o (Nat.ne_of_lt hlt)).trans hw'⟩
  · by_cases had : a = dest <;> by_cases hbd : b = dest
    · rw [had, hbd]
    · subst had
      rw [hstorage b hbd] at hob
      have hlt := hs.lt_made (hsome b hbd hb) hob
      cases hself.symm.trans hoa
      exact absurd hlt (Nat.lt_irrefl _)
    · subst hbd
      rw [hstorage a had] at hoa
      have hlt := hs.lt_made (hsome a had ha) hoa
      cases hself.symm.trans hob
      exact absurd hlt (Nat.lt_irrefl _)
    · rw [hstorage a had] at hoa
      rw [hstorage b hbd] at hob
      exact hs.apart a b o (hsome a had ha) (hsome b hbd hb) hoa hob
  · by_cases hom : o = s.made
    · exact ⟨dest, by rw [Function.update_self]; exact Option.some_ne_none w, hom ▸ hself⟩
    · rw [hobject o hom] at ho
      obtain ⟨a, ha, hoa⟩ := hs.owned o ho
      have had : a ≠ dest := fun had ↦ ha (had ▸ hdest)
      exact ⟨a, by rwa [Function.update_of_ne had], (hstorage a had).trans hoa⟩
  · by_cases hom : o = s.made
    · exact hom ▸ Nat.lt_succ_self _
    · rw [hobject o hom] at ho
      exact Nat.lt_succ_of_lt (hs.fresh o ho)

/-- The object of a union is destroyed. -/
theorem kill (hs : Holds s h) (ha : h a ≠ none) (hoa : s.storage a = some o) :
    Holds { s with objects := Function.update s.objects o none } (Function.update h a none) := by
  have hsome : ∀ b, Function.update h a none b ≠ none → b ≠ a ∧ h b ≠ none := fun b hb ↦ by
    by_cases hba : b = a
    · rw [hba, Function.update_self] at hb
      exact absurd rfl hb
    · rw [Function.update_of_ne hba] at hb
      exact ⟨hba, hb⟩
  have halive : ∀ p, Function.update s.objects o none p ≠ none → p ≠ o ∧
      s.objects p ≠ none := fun p hp ↦ by
    by_cases hpo : p = o
    · rw [hpo, Function.update_self] at hp
      exact absurd rfl hp
    · rw [Function.update_of_ne hpo] at hp
      exact ⟨hpo, hp⟩
  refine ⟨fun b w' hb ↦ ?_, fun b c p hb hc hpb hpc ↦ ?_, fun p hp ↦ ?_, fun p hp ↦ ?_⟩
  · obtain ⟨hba, hsome'⟩ := hsome b (hb ▸ Option.some_ne_none w')
    rw [Function.update_of_ne hba] at hb
    obtain ⟨p, hpb, hw'⟩ := hs.held b w' hb
    have hpo : p ≠ o := fun hpo ↦ hba (hs.apart b a o hsome' ha (hpo ▸ hpb) hoa)
    exact ⟨p, hpb, (Function.update_of_ne hpo ..).trans hw'⟩
  · exact hs.apart b c p (hsome b hb).2 (hsome c hc).2 hpb hpc
  · obtain ⟨hpo, halive'⟩ := halive p hp
    obtain ⟨b, hb, hpb⟩ := hs.owned p halive'
    have hba : b ≠ a := fun hba ↦ by
      rw [hba, hoa] at hpb
      exact hpo (Option.some.inj hpb).symm
    exact ⟨b, by rwa [Function.update_of_ne hba], hpb⟩
  · exact hs.fresh p (halive p hp).2

/-- Whatever is in the unions may change places: at `f a` is then what was at `a`. -/
theorem permute (hs : Holds s h) {storage : Addr → Option Nat} {h' : Addr → Option (T × V)}
    (f : Addr → Addr) (hback : ∀ a, h' a ≠ none → h' a = h (f a) ∧ storage a = s.storage (f a))
    (hinj : ∀ a b, h' a ≠ none → h' b ≠ none → f a = f b → a = b)
    (hforth : ∀ a, h a ≠ none → ∃ b, h' b ≠ none ∧ f b = a) :
    Holds { s with storage := storage } h' := by
  refine ⟨fun a w ha ↦ ?_, fun a b o ha hb hoa hob ↦ ?_, fun o ho ↦ ?_, hs.fresh⟩
  · obtain ⟨hfrom, hstorage⟩ := hback a (ha ▸ Option.some_ne_none w)
    obtain ⟨o, ho, hw⟩ := hs.held (f a) w (hfrom ▸ ha)
    exact ⟨o, hstorage.trans ho, hw⟩
  · obtain ⟨hfroma, hstoragea⟩ := hback a ha
    obtain ⟨hfromb, hstorageb⟩ := hback b hb
    refine hinj a b ha hb (hs.apart (f a) (f b) o (hfroma ▸ ha) (hfromb ▸ hb) ?_ ?_)
    · exact hstoragea.symm.trans hoa
    · exact hstorageb.symm.trans hob
  · obtain ⟨a, ha, hoa⟩ := hs.owned o ho
    obtain ⟨b, hb, rfl⟩ := hforth a ha
    exact ⟨b, hb, (hback b hb).2.trans hoa⟩

/-! ## The table of a type -/

theorem destroy (requiresAllocation : T → Bool) (hs : Holds s h) (ha : h a = some w) (type : T) :
    ∃ t, s.destroy requiresAllocation type a = .ok t ∧ Holds t (Function.update h a none) ∧
      t.vtable = s.vtable := by
  obtain ⟨o, hobject, hoa, -⟩ := hs.object ha
  have hthere : ¬ (requiresAllocation type = true ∧ s.storage a = none) := fun hnull ↦ by
    rw [hoa] at hnull
    cases hnull.2
  refine ⟨_, ?_, hs.kill (ha ▸ Option.some_ne_none w) hoa, rfl⟩
  rw [State.destroy, if_neg hthere, hobject]
  rfl

theorem copy (hs : Holds s h) (hsrc : h src = some w) (hdest : h dest = none) :
    ∃ t, s.copy src dest = .ok t ∧ Holds t (Function.update h dest (some w)) ∧
      t.vtable = s.vtable := by
  obtain ⟨o, hobject, -⟩ := hs.object hsrc
  refine ⟨_, ?_, hs.new hdest w, rfl⟩
  rw [State.copy, hobject]
  rfl

theorem move (requiresAllocation : T → Bool) (hs : Holds s h) (hsrc : h src = some w)
    (hdest : h dest = none) (type : T) :
    ∃ t, s.move requiresAllocation type src dest = .ok t ∧
      Holds t (Function.update (Function.update h src none) dest (some w)) ∧
      t.vtable = s.vtable := by
  have hne : src ≠ dest := fun heq ↦ by
    rw [heq, hdest] at hsrc
    cases hsrc
  have hsome : ∀ a, a ≠ dest → Function.update (Function.update h src none) dest (some w) a ≠ none →
      a ≠ src ∧ Function.update (Function.update h src none) dest (some w) a = h a :=
        fun a had ha ↦ by
    rw [Function.update_of_ne had] at ha ⊢
    by_cases has : a = src
    · rw [has, Function.update_self] at ha
      exact absurd rfl ha
    · exact ⟨has, Function.update_of_ne has ..⟩
  unfold State.move
  split
  · refine ⟨_, rfl, hs.permute (fun a ↦ if a = dest then src else a)
      (fun a ha ↦ ?_) (fun a b ha hb hab ↦ ?_) fun a ha ↦ ?_, rfl⟩
    · by_cases had : a = dest
      · rw [had, if_pos rfl, Function.update_self, hsrc]
        exact ⟨rfl, (Function.update_of_ne hne.symm ..).trans (Function.update_self ..)⟩
      · obtain ⟨has, heq⟩ := hsome a had ha
        rw [if_neg had]
        exact ⟨heq, (Function.update_of_ne has ..).trans (Function.update_of_ne had ..)⟩
    · by_cases had : a = dest <;> by_cases hbd : b = dest
      · rw [had, hbd]
      · rw [if_pos had, if_neg hbd] at hab
        exact absurd hab.symm (hsome b hbd hb).1
      · rw [if_neg had, if_pos hbd] at hab
        exact absurd hab (hsome a had ha).1
      · rwa [if_neg had, if_neg hbd] at hab
    · by_cases has : a = src
      · refine ⟨dest, ?_, by rw [if_pos rfl, has]⟩
        rw [Function.update_self]
        exact Option.some_ne_none w
      · have had : a ≠ dest := fun had ↦ ha (had ▸ hdest)
        exact ⟨a, by rwa [Function.update_of_ne had, Function.update_of_ne has], if_neg had⟩
  · obtain ⟨u, hcopy, hu, hvtable⟩ := hs.copy hsrc hdest
    have hsrc' : Function.update h dest (some w) src = some w := by
      rw [Function.update_of_ne hne, hsrc]
    obtain ⟨t, hdestroy, ht, hvtable'⟩ := hu.destroy requiresAllocation hsrc' type
    refine ⟨t, ?_, ?_, hvtable'.trans hvtable⟩
    · rw [hcopy]
      exact hdestroy
    · rwa [Function.update_comm hne.symm] at ht

theorem moveAny (requiresAllocation : T → Bool) (hs : Holds s h) (hdest : h dest = none)
    {vtable : Option T} (hvtable : vtable = (h src).map Prod.fst) :
    ∃ t, s.moveAny requiresAllocation vtable src dest = .ok t ∧
      Holds t (Function.update (Function.update h src none) dest (h src)) ∧
      t.vtable = s.vtable := by
  subst hvtable
  cases hsrc : h src with
  | none =>
    refine ⟨s, rfl, hs.congr fun a ↦ ?_, rfl⟩
    simp only [Function.update_apply]
    grind
  | some w => exact hs.move requiresAllocation hsrc hdest w.1

/-- The unions of two `any`s of one type change what they hold. -/
theorem swapStorage {w₁ w₂ : T × V} (requiresAllocation : T → Bool) (hs : Holds s h)
    (hne : lhs ≠ rhs) (hlhs : h lhs = some w₁)
    (hrhs : h rhs = some w₂) (htmp : h .tmpStorage = none) (type : T) :
    ∃ t, s.swapStorage requiresAllocation type lhs rhs = .ok t ∧
      Holds t (Function.update (Function.update h lhs (some w₂)) rhs (some w₁)) ∧
      t.vtable = s.vtable := by
  have hl : lhs ≠ .tmpStorage := fun heq ↦ by
    rw [heq, htmp] at hlhs
    cases hlhs
  have hr : rhs ≠ .tmpStorage := fun heq ↦ by
    rw [heq, htmp] at hrhs
    cases hrhs
  unfold State.swapStorage
  split
  · refine ⟨_, rfl, hs.permute (Equiv.swap lhs rhs) (fun a _ ↦ ?_) (fun a b _ _ hab ↦ ?_)
      fun a ha ↦ ?_, rfl⟩
    · by_cases har : a = rhs
      · rw [har, Equiv.swap_apply_right, Function.update_self, Function.update_self, hlhs]
        exact ⟨rfl, rfl⟩
      · by_cases hal : a = lhs
        · rw [hal, Equiv.swap_apply_left, Function.update_of_ne hne, Function.update_self,
            Function.update_of_ne hne, Function.update_self, hrhs]
          exact ⟨rfl, rfl⟩
        · rw [Equiv.swap_apply_of_ne_of_ne hal har, Function.update_of_ne har,
            Function.update_of_ne hal, Function.update_of_ne har, Function.update_of_ne hal]
          exact ⟨rfl, rfl⟩
    · exact (Equiv.swap lhs rhs).injective hab
    · refine ⟨Equiv.swap lhs rhs a, ?_, Equiv.swap_apply_self ..⟩
      by_cases har : a = rhs
      · rw [har, Equiv.swap_apply_right, Function.update_of_ne hne, Function.update_self]
        exact Option.some_ne_none w₂
      · by_cases hal : a = lhs
        · rw [hal, Equiv.swap_apply_left, Function.update_self]
          exact Option.some_ne_none w₁
        · rwa [Equiv.swap_apply_of_ne_of_ne hal har, Function.update_of_ne har,
            Function.update_of_ne hal]
  · obtain ⟨s₁, h₁, hs₁, hv₁⟩ := hs.move requiresAllocation hrhs htmp type
    have hlhs₁ : Function.update (Function.update h rhs none) .tmpStorage (some w₂) lhs =
        some w₁ := by
      rw [Function.update_of_ne hl, Function.update_of_ne hne, hlhs]
    have hrhs₁ : Function.update (Function.update h rhs none) .tmpStorage (some w₂) rhs = none := by
      rw [Function.update_of_ne hr, Function.update_self]
    obtain ⟨s₂, h₂, hs₂, hv₂⟩ := hs₁.move requiresAllocation hlhs₁ hrhs₁ type
    have hs₂' : Holds s₂ (Function.update
        (Function.update (Function.update h lhs none) rhs (some w₁)) .tmpStorage (some w₂)) :=
        hs₂.congr fun a ↦ by
      simp only [Function.update_apply]
      grind
    have hlhs₂ : Function.update (Function.update (Function.update h lhs none) rhs (some w₁))
        .tmpStorage (some w₂) lhs = none := by
      rw [Function.update_of_ne hl, Function.update_of_ne hne, Function.update_self]
    obtain ⟨s₃, h₃, hs₃, hv₃⟩ := hs₂'.move requiresAllocation (Function.update_self ..) hlhs₂ type
    refine ⟨s₃, ?_, hs₃.congr fun a ↦ ?_, hv₃.trans (hv₂.trans hv₁)⟩
    · rw [h₁]
      show (do
        let s ← s₁.move requiresAllocation type lhs rhs
        s.move requiresAllocation type .tmpStorage lhs) = _
      rw [h₂]
      exact h₃
    · simp only [Function.update_apply]
      grind

end Holds

/-! ## The members -/

/-- Each `any` has the table of its object, and an empty one has none. -/
structure Sound (s : State T V) (h : Addr → Option (T × V)) : Prop where
  holds : Holds s h
  tables : ∀ a, s.vtable a = (h a).map Prod.fst

theorem tables_update {vtable : Addr → Option T} (htables : ∀ a, vtable a = (h a).map Prod.fst)
    (x : Addr) (y : Option (T × V)) (a : Addr) :
    Function.update vtable x (y.map Prod.fst) a = (Function.update h x y a).map Prod.fst := by
  by_cases hax : a = x
  · rw [hax, Function.update_self, Function.update_self]
  · rw [Function.update_of_ne hax, Function.update_of_ne hax, htables a]

namespace Sound

theorem congr {h' : Addr → Option (T × V)} (hs : Sound s h) (hsame : ∀ a, h a = h' a) :
    Sound s h' :=
  funext hsame ▸ hs

theorem construct (hs : Sound s h) (ha : h a = none) (w : T × V) :
    Sound (s.construct a w) (Function.update h a (some w)) :=
  ⟨(hs.holds.setVtable a _).new ha w, tables_update hs.tables a (some w)⟩

theorem copyConstruct (hs : Sound s h) (ha : h a = none) (b : Addr) :
    ∃ t, s.copyConstruct a b = .ok t ∧ Sound t (Function.update h a (h b)) := by
  have htables := tables_update hs.tables a (h b)
  unfold State.copyConstruct
  rw [hs.tables b]
  cases hrhs : h b with
  | none =>
    rw [hrhs] at htables
    refine ⟨_, rfl, (hs.holds.setVtable a _).congr fun x ↦ ?_, htables⟩
    by_cases hxa : x = a
    · rw [hxa, Function.update_self, ha]
    · rw [Function.update_of_ne hxa]
  | some w =>
    rw [hrhs] at htables
    obtain ⟨t, hcopy, ht, hvtable⟩ := (hs.holds.setVtable a (some w.1)).copy hrhs ha
    exact ⟨t, hcopy, ht, hvtable ▸ htables⟩

theorem moveConstruct (requiresAllocation : T → Bool) (hs : Sound s h) (ha : h a = none)
    (hne : a ≠ b) :
    ∃ t, s.moveConstruct requiresAllocation a b = .ok t ∧
      Sound t (Function.update (Function.update h a (h b)) b none) := by
  obtain ⟨t, hmove, ht, hvtable⟩ := (hs.holds.setVtable a (s.vtable b)).moveAny requiresAllocation
    ha (hs.tables b)
  refine ⟨t.setVtable b none, ?_, (ht.setVtable b none).congr fun x ↦ ?_, fun x ↦ ?_⟩
  · unfold State.moveConstruct
    rw [hmove]
    rfl
  · rw [Function.update_comm hne]
  · have htables := tables_update (tables_update hs.tables a (h b)) b none x
    rw [← hs.tables b] at htables
    rw [← htables]
    show Function.update t.vtable b none x = _
    rw [hvtable]
    rfl

theorem clear (requiresAllocation : T → Bool) (hs : Sound s h) (a : Addr) :
    ∃ t, s.clear requiresAllocation a = .ok t ∧ Sound t (Function.update h a none) := by
  unfold State.clear
  rw [hs.tables a]
  cases ha : h a with
  | none =>
    refine ⟨s, rfl, hs.congr fun x ↦ ?_⟩
    by_cases hxa : x = a
    · rw [hxa, Function.update_self, ha]
    · rw [Function.update_of_ne hxa]
  | some w =>
    obtain ⟨t, hdestroy, ht, hvtable⟩ := hs.holds.destroy requiresAllocation ha w.1
    refine ⟨t.setVtable a none, ?_, ht.setVtable a none, fun x ↦ ?_⟩
    · show (s.destroy requiresAllocation w.1 a).map _ = _
      rw [hdestroy]
      rfl
    · show Function.update t.vtable a none x = _
      rw [hvtable]
      exact tables_update hs.tables a none x

theorem swapMoved (requiresAllocation : T → Bool) (hs : Sound s h) (hrhs : h rhs = none)
    (hlhs : lhs ≠ .tmp) (hne : lhs ≠ rhs) (htmp : rhs ≠ .tmp) :
    ∃ t, s.swapMoved requiresAllocation lhs rhs = .ok t ∧
      Sound t (Function.update (Function.update (Function.update h rhs (h lhs)) lhs (h .tmp)) .tmp
        none) := by
  have hv₀ : (s.setVtable rhs (s.vtable lhs)).vtable lhs = s.vtable lhs :=
    Function.update_of_ne hne ..
  obtain ⟨s₁, h₁, hs₁, hv₁⟩ :=
    (hs.holds.setVtable rhs (s.vtable lhs)).moveAny requiresAllocation hrhs
      (hv₀.trans (hs.tables lhs))
  have htables : s₁.vtable .tmp = s.vtable .tmp := by
    rw [hv₁]
    exact Function.update_of_ne htmp.symm ..
  have hv₂ : (s₁.setVtable lhs (s₁.vtable .tmp)).vtable .tmp = s.vtable .tmp :=
    (Function.update_of_ne hlhs.symm ..).trans htables
  have hempty : Function.update (Function.update h lhs none) rhs (h lhs) lhs = none := by
    rw [Function.update_of_ne hne, Function.update_self]
  have hthere : Function.update (Function.update h lhs none) rhs (h lhs) .tmp = h .tmp := by
    rw [Function.update_of_ne htmp.symm, Function.update_of_ne hlhs.symm]
  obtain ⟨s₂, h₂, hs₂, hv₃⟩ :=
    (hs₁.setVtable lhs (s₁.vtable .tmp)).moveAny requiresAllocation hempty
    (hv₂.trans ((hs.tables .tmp).trans (by rw [hthere])))
  refine ⟨s₂.setVtable .tmp none, ?_, (hs₂.setVtable .tmp none).congr fun a ↦ ?_, fun a ↦ ?_⟩
  · unfold State.swapMoved
    simp only [bind, Except.bind, h₁, h₂]
    rfl
  · simp only [Function.update_apply]
    grind
  · have hall := tables_update (tables_update (tables_update hs.tables rhs (h lhs)) lhs (h .tmp))
      .tmp none a
    rw [← hs.tables lhs, ← hs.tables .tmp] at hall
    rw [← hall]
    show Function.update s₂.vtable .tmp none a = _
    rw [hv₃]
    show Function.update (Function.update s₁.vtable lhs (s₁.vtable .tmp)) .tmp none a = _
    rw [htables, hv₁]
    rfl

/-- `swap` of two different `any`s. -/
theorem swap [DecidableEq T] (requiresAllocation : T → Bool) (hs : Sound s h) (hne : lhs ≠ rhs)
    (hlhs : lhs ≠ .tmp)
    (hrhs : rhs ≠ .tmp) (htmp : h .tmp = none) (hstorage : h .tmpStorage = none) :
    ∃ t, s.swap requiresAllocation lhs rhs = .ok t ∧
      Sound t (Function.update (Function.update h lhs (h rhs)) rhs (h lhs)) := by
  unfold State.swap
  split
  next hdiffer =>
    obtain ⟨s₁, h₁, hs₁⟩ := hs.moveConstruct requiresAllocation htmp hrhs.symm
    obtain ⟨s₂, h₂, hs₂⟩ := hs₁.swapMoved requiresAllocation (Function.update_self ..) hlhs hne hrhs
    obtain ⟨s₃, h₃, hs₃⟩ := hs₂.clear requiresAllocation .tmp
    refine ⟨s₃, ?_, hs₃.congr fun a ↦ ?_⟩
    · simp only [bind, Except.bind, h₁, h₂, h₃]
    · simp only [Function.update_apply]
      grind
  next hsame =>
    rw [not_not, hs.tables lhs, hs.tables rhs] at hsame
    rw [hs.tables lhs]
    cases hl : h lhs with
    | none =>
      rw [hl, Option.map_none, eq_comm, Option.map_eq_none_iff] at hsame
      refine ⟨s, rfl, hs.congr fun a ↦ ?_⟩
      simp only [Function.update_apply]
      grind
    | some w₁ =>
      rw [hl, Option.map_some, eq_comm, Option.map_eq_some_iff] at hsame
      obtain ⟨w₂, hr, htype⟩ := hsame
      obtain ⟨t, hswap, ht, hvtable⟩ :=
        hs.holds.swapStorage requiresAllocation hne hl hr hstorage w₁.1
      rw [hr]
      refine ⟨t, hswap, ht, fun a ↦ ?_⟩
      rw [hvtable, hs.tables a]
      simp only [Function.update_apply]
      grind

/-- Behind an assignment the temporary is gone, and with it what the variable held. -/
theorem assign [DecidableEq T] (requiresAllocation : T → Bool) (hs : Sound s h)
    (htmp : h .tmp = none) (hstorage : h .tmpStorage = none) (x : Nat) :
    ∃ t, s.assign requiresAllocation x = .ok t ∧
      Sound t (Function.update (Function.update h (.named x) (h .temporary)) .temporary none) := by
  obtain ⟨s₁, h₁, hs₁⟩ :=
    @swap _ _ s h .temporary (.named x) _ requiresAllocation hs nofun nofun nofun htmp hstorage
  obtain ⟨s₂, h₂, hs₂⟩ := hs₁.clear requiresAllocation .temporary
  refine ⟨s₂, ?_, hs₂.congr fun a ↦ ?_⟩
  · unfold State.assign
    simp only [bind, Except.bind, h₁, h₂]
  · simp only [Function.update_apply]
    grind

end Sound

/-- An object that has been moved out of a union is not alive. -/
theorem object_of_move (hs : Holds s h) (hsrc : h src = some w) (hne : src ≠ dest)
    (hinside : requiresAllocation type = false)
    (hmove : s.move requiresAllocation type src dest = .ok t) :
    t.object src = .error .dead := by
  obtain ⟨o, hobject, hstorage, halive⟩ := hs.object hsrc
  have hlt := hs.fresh o (halive ▸ Option.some_ne_none w)
  have hstorage' : (s.new dest w).storage src = some o :=
    (Function.update_of_ne hne ..).trans hstorage
  have halive' : (s.new dest w).objects o = some w :=
    (Function.update_of_ne (Nat.ne_of_lt hlt) ..).trans halive
  have hobject' : (s.new dest w).object src = .ok (o, w) := by
    simp only [State.object, hstorage', halive']
  have hcopy : s.copy src dest = .ok (s.new dest w) := by
    rw [State.copy, hobject]
    rfl
  have hdestroy : (s.new dest w).destroy requiresAllocation type src =
      .ok { s.new dest w with objects := Function.update (s.new dest w).objects o none } := by
    rw [State.destroy, if_neg (by simp [hinside]), hobject']
    rfl
  rw [State.move, if_neg (by simp [hinside]), hcopy] at hmove
  cases hdestroy.symm.trans hmove
  simp only [State.object, hstorage', Function.update_self]

/-! ## The operations -/

/-- Between two operations only the variables hold anything. -/
def Contents.held (m : Contents T V) : Addr → Option (T × V)
  | .named x => m x
  | _ => none

theorem held_update (m : Contents T V) (x : Nat) (v : Option (T × V)) (a : Addr) :
    Contents.held (Function.update m x v) a = Function.update m.held (.named x) v a := by
  cases a with
  | named y =>
    by_cases hyx : y = x
    · rw [hyx, Function.update_self]
      exact Function.update_self ..
    · rw [Function.update_of_ne fun heq ↦ hyx (Addr.named.inj heq)]
      exact Function.update_of_ne hyx ..
  | temporary | tmp | tmpStorage => exact (Function.update_of_ne (by simp) ..).symm

/-- An `any` that keeps its object inside is swapped with itself. -/
def Contents.SelfSwap (requiresAllocation : T → Bool) (m : Contents T V) (op : Op T V) : Prop :=
  ∃ x w, op = .swap x x ∧ m x = some w ∧ requiresAllocation w.1 = false

theorem sound_start : Sound ({} : State T V) (Contents.held fun _ ↦ none) := by
  have hnone : ∀ a, Contents.held (fun _ ↦ (none : Option (T × V))) a = none := fun a ↦ by
    cases a <;> rfl
  refine ⟨⟨fun a w ha ↦ ?_, fun a b o ha ↦ absurd (hnone a) ha, fun o ho ↦ absurd rfl ho,
    fun o ho ↦ absurd rfl ho⟩, fun a ↦ by rw [hnone a]; rfl⟩
  rw [hnone a] at ha
  cases ha

section Operations

variable [DecidableEq T] {m : Contents T V} {op : Op T V}

/-- What an assignment of what the temporary holds comes to. -/
theorem assigned (requiresAllocation : T → Bool) {m' : Contents T V} {v : Option (T × V)} (x : Nat)
    (hs : Sound s (Function.update m'.held .temporary v)) :
    ∃ t, s.assign requiresAllocation x = .ok t ∧
      Sound t (Contents.held (Function.update m' x v)) := by
  obtain ⟨t, hassign, ht⟩ := hs.assign requiresAllocation (Function.update_of_ne (by simp) ..)
    (Function.update_of_ne (by simp) ..) x
  have hnone : m'.held .temporary = none := rfl
  refine ⟨t, hassign, ht.congr fun a ↦ ?_⟩
  rw [held_update]
  simp only [Function.update_apply]
  grind

theorem next_assign (requiresAllocation : T → Bool) (hs : Sound s m.held) (x : Nat) (type : T)
    (value : V) :
    ∃ t, s.next requiresAllocation (.assign x type value) = .ok t ∧
      Sound t (m.next (.assign x type value)).held :=
  assigned requiresAllocation x (hs.construct rfl (type, value))

theorem next_assignCopy (requiresAllocation : T → Bool) (hs : Sound s m.held) (x rhs : Nat) :
    ∃ t, s.next requiresAllocation (.assignCopy x rhs) = .ok t ∧
      Sound t (m.next (.assignCopy x rhs)).held := by
  obtain ⟨s₁, h₁, hs₁⟩ := hs.copyConstruct (a := .temporary) rfl (.named rhs)
  obtain ⟨t, hassign, ht⟩ := assigned requiresAllocation x hs₁
  refine ⟨t, ?_, ht⟩
  simp only [State.next, bind, Except.bind, h₁]
  exact hassign

theorem next_assignMove (requiresAllocation : T → Bool) (hs : Sound s m.held) (x rhs : Nat) :
    ∃ t, s.next requiresAllocation (.assignMove x rhs) = .ok t ∧
      Sound t (m.next (.assignMove x rhs)).held := by
  obtain ⟨s₁, h₁, hs₁⟩ :=
    @Sound.moveConstruct _ _ s m.held .temporary (.named rhs) requiresAllocation hs rfl nofun
  have hs₁' : Sound s₁ (Function.update (Contents.held (Function.update m rhs none)) .temporary
      (m rhs)) := by
    refine hs₁.congr fun a ↦ ?_
    rw [Function.update_comm (by simp), funext (held_update m rhs none)]
    rfl
  obtain ⟨t, hassign, ht⟩ := assigned requiresAllocation x hs₁'
  refine ⟨t, ?_, ht⟩
  simp only [State.next, bind, Except.bind, h₁]
  exact hassign

theorem next_clear (requiresAllocation : T → Bool) (hs : Sound s m.held) (x : Nat) :
    ∃ t, s.next requiresAllocation (.clear x) = .ok t ∧ Sound t (m.next (.clear x)).held := by
  obtain ⟨t, hclear, ht⟩ := hs.clear requiresAllocation (.named x)
  exact ⟨t, hclear, ht.congr fun a ↦ (held_update m x none a).symm⟩

theorem next_swap (requiresAllocation : T → Bool) (hs : Sound s m.held) {x rhs : Nat}
    (hne : x ≠ rhs) :
    ∃ t, s.next requiresAllocation (.swap x rhs) = .ok t ∧ Sound t (m.next (.swap x rhs)).held := by
  have hnamed : Addr.named x ≠ .named rhs := fun heq ↦ hne (Addr.named.inj heq)
  obtain ⟨t, hswap, ht⟩ := hs.swap requiresAllocation hnamed nofun nofun rfl rfl
  refine ⟨t, hswap, ht.congr fun a ↦ ?_⟩
  show _ = Contents.held (Function.update (Function.update m x (m rhs)) rhs (m x)) a
  rw [held_update, funext (held_update m x (m rhs))]
  rfl

/-- An `any` with nothing in it, or with a pointer, can be swapped with itself. -/
theorem next_swap_self (hs : Sound s m.held) {x : Nat}
    (hself : ¬ m.SelfSwap requiresAllocation (.swap x x)) :
    ∃ t, s.next requiresAllocation (.swap x x) = .ok t ∧ Sound t (m.next (.swap x x)).held := by
  have hsame : m.next (.swap x x) = m := by
    show Function.update (Function.update m x (m x)) x (m x) = m
    rw [Function.update_eq_self, Function.update_eq_self]
  rw [hsame]
  simp only [State.next, State.swap, ne_eq, not_true_eq_false, if_false]
  rw [hs.tables (.named x)]
  cases hx : m x with
  | none =>
    have hnone : m.held (.named x) = none := hx
    rw [hnone]
    exact ⟨s, rfl, hs⟩
  | some w =>
    have hsome : m.held (.named x) = some w := hx
    have hallocates : requiresAllocation w.1 = true := by
      by_contra hno
      exact hself ⟨x, w, rfl, hx, Bool.not_eq_true _ ▸ hno⟩
    rw [hsome]
    have hstorage : Function.update
        (Function.update s.storage (.named x) (s.storage (.named x))) (.named x)
        (s.storage (.named x)) = s.storage := by
      rw [Function.update_eq_self, Function.update_eq_self]
    refine ⟨s, ?_, hs⟩
    show s.swapStorage requiresAllocation w.1 _ _ = _
    rw [State.swapStorage, if_pos hallocates, hstorage]

/-- Inside, the object is destroyed before it is read again. -/
theorem next_swap_dead (hs : Sound s m.held) {x : Nat} {w : T × V} (hx : m x = some w)
    (hinside : requiresAllocation w.1 = false) :
    s.next requiresAllocation (.swap x x) = .error .dead := by
  have hsome : m.held (.named x) = some w := hx
  obtain ⟨s₁, h₁, -⟩ := hs.holds.move requiresAllocation hsome (rfl : m.held .tmpStorage = none) w.1
  have hdead := object_of_move hs.holds hsome (by simp) hinside h₁
  simp only [State.next, State.swap, ne_eq, not_true_eq_false, if_false]
  rw [hs.tables (.named x), hsome]
  show s.swapStorage requiresAllocation w.1 _ _ = _
  rw [State.swapStorage, if_neg (by simp [hinside]), h₁]
  simp only [bind, Except.bind, State.move,
    if_neg (by simp [hinside] : ¬ requiresAllocation w.1 = true), State.copy, hdead, Except.map]

/-- **Step lemma.**  An operation does what it says to the values, unless it is such a swap; and
then it reads an object that is not alive. -/
theorem next_sound (requiresAllocation : T → Bool) (hs : Sound s m.held) (op : Op T V) :
    m.SelfSwap requiresAllocation op ∧ s.next requiresAllocation op = .error .dead ∨
      ¬ m.SelfSwap requiresAllocation op ∧ ∃ t, s.next requiresAllocation op = .ok t ∧
      Sound t (m.next op).held := by
  by_cases hself : m.SelfSwap requiresAllocation op
  · obtain ⟨x, w, rfl, hx, hinside⟩ := hself
    exact .inl ⟨⟨x, w, rfl, hx, hinside⟩, next_swap_dead hs hx hinside⟩
  · refine .inr ⟨hself, ?_⟩
    cases op with
    | assign x type value => exact next_assign requiresAllocation hs x type value
    | assignCopy x rhs => exact next_assignCopy requiresAllocation hs x rhs
    | assignMove x rhs => exact next_assignMove requiresAllocation hs x rhs
    | clear x => exact next_clear requiresAllocation hs x
    | swap x rhs =>
      by_cases hne : x = rhs
      · subst hne
        exact next_swap_self hs hself
      · exact next_swap requiresAllocation hs hne

/-- One operation that comes to its end. -/
def Step (requiresAllocation : T → Bool) (s : State T V) (op : Op T V) (t : State T V) : Prop :=
  s.next requiresAllocation op = .ok t

theorem sound_of_run {ops : List (Op T V)} (h : Run (Step requiresAllocation) s ops t)
    (hs : Sound s m.held) :
    Sound t (ops.foldl Contents.next m).held := by
  induction h generalizing m with
  | nil => exact hs
  | cons hstep _ ih =>
    obtain ⟨-, hdead⟩ | ⟨-, u, hnext, hu⟩ := next_sound requiresAllocation hs _
    · cases hdead.symm.trans hstep
    · cases hnext.symm.trans hstep
      exact ih hu

/-- What the user of the `any`s sees: the values of `m`, and with each of them one object, its
own. -/
structure Refines (s : State T V) (m : Contents T V) : Prop where
  sound : Sound s m.held
  casts : ∀ x type, s.anyCast x type = .ok (if (m x).map Prod.fst = some type
    then (m x).map Prod.snd else none)

theorem Sound.refines (hs : Sound s m.held) : Refines s m := by
  refine ⟨hs, fun x type ↦ ?_⟩
  have htable : s.vtable (.named x) = (m x).map Prod.fst := hs.tables (.named x)
  unfold State.anyCast
  rw [htable]
  split
  next htype =>
    obtain ⟨w, hw, -⟩ := Option.map_eq_some_iff.mp htype
    obtain ⟨o, hobject, -⟩ := hs.holds.object (show m.held (.named x) = some w from hw)
    rw [hobject, hw]
    rfl
  next => rfl

/-- **Ownership.**  Whatever is assigned, copied, moved, cleared and swapped, and wherever the types
keep their objects: the `any`s hold the values they should, each in one living object of its own,
and there is no other; and an operation goes wrong exactly when it swaps with itself an `any` whose
object is inside. -/
theorem refines_of_run {ops : List (Op T V)} (h : Run (Step requiresAllocation) {} ops s) :
    Refines s (ops.foldl Contents.next fun _ ↦ none) ∧
      ∀ op, (∃ t, s.next requiresAllocation op = .ok t) ↔
        ¬ Contents.SelfSwap requiresAllocation (ops.foldl Contents.next fun _ ↦ none) op := by
  have hs := sound_of_run h sound_start
  refine ⟨hs.refines, fun op ↦ ?_⟩
  obtain ⟨hself, hdead⟩ | ⟨hself, t, hnext, -⟩ := next_sound requiresAllocation hs op
  · refine iff_of_false ?_ (not_not_intro hself)
    rintro ⟨t, hnext⟩
    cases hdead.symm.trans hnext
  · exact iff_of_true ⟨t, hnext⟩ hself

/-- A type on the heap and one inside. -/
theorem refines_of_run_two :
    ∃ s : State Bool Nat, Run (Step id) {} [.assign 0 true 5, .assign 1 false 7, .swap 0 1] s ∧
      Refines s ([.assign 0 true 5, .assign 1 false 7, .swap 0 1].foldl Contents.next fun _ ↦
        none) ∧
      ∀ op, (∃ t, s.next id op = .ok t) ↔ ¬ Contents.SelfSwap id
        ([.assign 0 true 5, .assign 1 false 7, .swap 0 1].foldl Contents.next fun _ ↦ none) op := by
  have hrun := show Run (Step id) ({} : State Bool Nat) [.assign 0 true 5, .assign 1 false 7,
      .swap 0 1] _ from
    .cons rfl (.cons rfl (.cons rfl (.nil _)))
  exact ⟨_, hrun, refines_of_run hrun⟩

end Operations

end Pallette.Any
