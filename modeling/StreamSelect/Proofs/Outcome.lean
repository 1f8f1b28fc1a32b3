import Mathlib.Data.List.Forall2
import StreamSelect.Fault

/-!
Relations between the outcomes of two computations, and the loops that keep them. `Agree` asks for
the same fault on both sides; `Carries` only carries success from the first side to the second;
`Tracks` carries faults too if a condition holds. `OnFault` is about one computation: it says which
faults it can end in. `AllOrNothing` relates a computation to the steps that it is made of.
-/
namespace StreamSelect.Outcome
variable {α β γ δ ι κ : Type}

/-- Both sides fail with one fault, or both succeed with related results. -/
inductive Agree (R : α → β → Prop) : Outcome α → Outcome β → Prop
  | ok {a : α} {b : β} (h : R a b) : Agree R (.ok a) (.ok b)
  | error (fault : Fault) : Agree R (.error fault) (.error fault)

/-- If the first side succeeds, so does the second, with a related result. A fault of the first
side promises nothing. -/
def Carries (R : α → β → Prop) (x : Outcome α) (y : Outcome β) : Prop :=
  ∀ a, x = .ok a → ∃ b, y = .ok b ∧ R a b

theorem bind_eq_ok {x : Outcome α} {f : α → Outcome β} {b : β} :
    x >>= f = .ok b ↔ ∃ a, x = .ok a ∧ f a = .ok b := by
  cases x with
  | error fault =>
    constructor
    · intro h
      cases h
    · rintro ⟨a, h, _⟩
      cases h
  | ok a => exact ⟨fun h => ⟨a, rfl, h⟩, fun ⟨_, h, h'⟩ => by cases h; exact h'⟩

theorem map_eq_ok {x : Outcome α} {f : α → β} {b : β} :
    f <$> x = .ok b ↔ ∃ a, x = .ok a ∧ f a = b := by
  cases x with
  | error fault =>
    constructor
    · intro h
      cases h
    · rintro ⟨a, h, _⟩
      cases h
  | ok a => exact ⟨fun h => ⟨a, rfl, Except.ok.inj h⟩, fun ⟨_, h, h'⟩ => by cases h; cases h'; rfl⟩

theorem bind_eq_error {x : Outcome α} {f : α → Outcome β} {fault : Fault} :
    x >>= f = .error fault ↔ x = .error fault ∨ ∃ a, x = .ok a ∧ f a = .error fault := by
  cases x with
  | error earlier =>
    constructor
    · intro h
      cases h
      exact .inl rfl
    · rintro (h | ⟨a, h, _⟩)
      · cases h
        rfl
      · cases h
  | ok a =>
    constructor
    · exact fun h => .inr ⟨a, rfl, h⟩
    · rintro (h | ⟨b, h, hb⟩)
      · cases h
      · cases h
        exact hb

theorem map_eq_error {x : Outcome α} {f : α → β} {fault : Fault} :
    f <$> x = .error fault ↔ x = .error fault := by
  cases x with
  | error earlier => exact ⟨fun h => by cases h; rfl, fun h => by cases h; rfl⟩
  | ok a => exact ⟨fun h => (by cases h), fun h => by cases h⟩

/-- A loop that succeeds has succeeded up to each of its steps. -/
theorem foldlM_eq_ok_split {f : α → ι → Outcome α} {done rest : List ι} {x : ι}
    {start b : α} (h : (done ++ x :: rest).foldlM f start = .ok b) :
    ∃ a c, done.foldlM f start = .ok a ∧ f a x = .ok c ∧ rest.foldlM f c = .ok b := by
  rw [List.foldlM_append] at h
  obtain ⟨a, ha, h⟩ := bind_eq_ok.mp h
  rw [List.foldlM_cons] at h
  obtain ⟨c, hc, hrest⟩ := bind_eq_ok.mp h
  exact ⟨a, c, ha, hc, hrest⟩

/-- A loop fails in one of its steps, after the steps before it have succeeded. -/
theorem foldlM_eq_error {f : α → ι → Outcome α} {xs : List ι} {start : α} {fault : Fault}
    (h : xs.foldlM f start = .error fault) :
    ∃ done x rest a, xs = done ++ x :: rest ∧ done.foldlM f start = .ok a ∧
      f a x = .error fault := by
  induction xs generalizing start with
  | nil => cases h
  | cons x xs ih =>
    rw [List.foldlM_cons, bind_eq_error] at h
    rcases h with hfirst | ⟨a, ha, hrest⟩
    · exact ⟨[], x, xs, start, rfl, rfl, hfirst⟩
    · obtain ⟨done, y, rest, b, rfl, hdone, hb⟩ := ih hrest
      refine ⟨x :: done, y, rest, b, rfl, ?_, hb⟩
      rw [List.foldlM_cons, ha]
      exact hdone

theorem mapM_eq_ok {f : ι → Outcome α} {xs : List ι} {as : List α} (h : xs.mapM f = .ok as) :
    List.Forall₂ (fun x a => f x = .ok a) xs as := by
  induction xs generalizing as with
  | nil =>
    cases h
    exact .nil
  | cons x xs ih =>
    rw [List.mapM_cons] at h
    obtain ⟨a, ha, h⟩ := bind_eq_ok.mp h
    obtain ⟨rest, hrest, h⟩ := bind_eq_ok.mp h
    cases h
    exact .cons ha (ih hrest)

/-- A traversal whose steps all succeed. -/
theorem mapM_of_ok {f : ι → Outcome α} {g : ι → α} (h : ∀ x, f x = .ok (g x)) (xs : List ι) :
    xs.mapM f = .ok (xs.map g) := by
  rw [funext h]
  exact List.mapM_pure

theorem mapM_map (f : ι → Outcome α) (g : α → β) (xs : List ι) :
    (xs.mapM fun x => g <$> f x) = List.map g <$> xs.mapM f := by
  induction xs with
  | nil => rfl
  | cons x xs ih =>
    simp only [List.mapM_cons, ih]
    cases f x with
    | error fault => rfl
    | ok a => cases xs.mapM f <;> rfl

/-- A traversal fails where a step fails for the first time. -/
theorem mapM_eq_error_split {f : ι → Outcome α} {xs : List ι} {fault : Fault}
    (h : xs.mapM f = .error fault) : ∃ done x rest, xs = done ++ x :: rest ∧
      (∀ y ∈ done, ∃ a, f y = .ok a) ∧ f x = .error fault := by
  induction xs with
  | nil => cases h
  | cons x xs ih =>
    rw [List.mapM_cons, bind_eq_error] at h
    rcases h with hfirst | ⟨a, ha, hrest⟩
    · exact ⟨[], x, xs, rfl, by simp, hfirst⟩
    · rcases bind_eq_error.mp hrest with hrest | ⟨as, _, hpure⟩
      · obtain ⟨done, y, rest, rfl, hdone, hy⟩ := ih hrest
        exact ⟨x :: done, y, rest, rfl, List.forall_mem_cons.mpr ⟨⟨a, ha⟩, hdone⟩, hy⟩
      · cases hpure

theorem mapM_eq_error {f : ι → Outcome α} {xs : List ι} {fault : Fault}
    (h : xs.mapM f = .error fault) : ∃ x ∈ xs, f x = .error fault := by
  obtain ⟨done, x, rest, rfl, _, hx⟩ := mapM_eq_error_split h
  exact ⟨x, by simp, hx⟩

/-- Induction along a loop that succeeds: what holds at the start and is kept by every step holds at
the end. A step knows what has been passed and what is left. -/
theorem foldlM_induction {motive : List ι → α → Prop} {f : α → ι → Outcome α} {xs : List ι}
    {start a : α} (nil : motive [] start)
    (step : ∀ done x rest b c, xs = done ++ x :: rest → motive done b → f b x = .ok c →
      motive (done ++ [x]) c) (h : xs.foldlM f start = .ok a) : motive xs a := by
  suffices main : ∀ rest done b, xs = done ++ rest → motive done b → rest.foldlM f b = .ok a →
      motive xs a from main xs [] start rfl nil h
  intro rest
  induction rest with
  | nil =>
    intro done b hxs hb hrun
    cases hrun
    rwa [hxs, List.append_nil]
  | cons x rest ih =>
    intro done b hxs hb hrun
    obtain ⟨c, hc, hrest⟩ := bind_eq_ok.mp ((List.foldlM_cons ..).symm.trans hrun)
    exact ih (done ++ [x]) c (by simpa using hxs) (step done x rest b c hxs hb hc) hrest

theorem foldlM_congr {f g : α → ι → Outcome α} {xs : List ι}
    (h : ∀ a, ∀ x ∈ xs, f a x = g a x) (start : α) : xs.foldlM f start = xs.foldlM g start := by
  induction xs generalizing start with
  | nil => rfl
  | cons x xs ih =>
    rw [List.foldlM_cons, List.foldlM_cons, h start x List.mem_cons_self]
    exact bind_congr fun a => ih (fun b y hy => h b y (List.mem_cons_of_mem _ hy)) a

theorem mapM_congr {f : ι → Outcome α} {g : κ → Outcome α} {xs : List ι} {ys : List κ}
    (h : List.Forall₂ (fun x y => f x = g y) xs ys) : xs.mapM f = ys.mapM g := by
  induction h with
  | nil => rfl
  | cons hx _ ih => simp only [List.mapM_cons, hx, ih]

/-- If the computation fails, its fault has the property. -/
def OnFault (P : Fault → Prop) (x : Outcome α) : Prop := ∀ fault, x = .error fault → P fault

namespace OnFault
variable {P : Fault → Prop}

@[simp] theorem ok (a : α) : OnFault P (.ok a : Outcome α) := fun _ h => by cases h

theorem error {fault : Fault} (h : P fault) : OnFault P (.error fault : Outcome α) :=
  fun _ he => by cases he; exact h

@[simp] theorem error_iff {fault : Fault} : OnFault P (.error fault : Outcome α) ↔ P fault :=
  ⟨fun h => h fault rfl, error⟩

theorem bind {x : Outcome α} {f : α → Outcome β} (h : OnFault P x) (hf : ∀ a, OnFault P (f a)) :
    OnFault P (x >>= f) := by
  intro fault hfault
  rcases bind_eq_error.mp hfault with hx | ⟨a, _, hfa⟩
  · exact h fault hx
  · exact hf a fault hfa

theorem map {x : Outcome α} {f : α → β} (h : OnFault P x) : OnFault P (f <$> x) :=
  fun fault hfault => h fault (map_eq_error.mp hfault)

theorem mapM {f : ι → Outcome α} {xs : List ι} (h : ∀ x ∈ xs, OnFault P (f x)) :
    OnFault P (xs.mapM f) := by
  intro fault hfault
  obtain ⟨x, hx, hfx⟩ := mapM_eq_error hfault
  exact h x hx fault hfx

theorem foldlM {f : α → ι → Outcome α} {xs : List ι} {start : α}
    (h : ∀ a x, OnFault P (f a x)) : OnFault P (xs.foldlM f start) := by
  intro fault hfault
  obtain ⟨_, x, _, a, _, _, hstep⟩ := foldlM_eq_error hfault
  exact h a x fault hstep

end OnFault

namespace Agree
variable {R : α → β → Prop} {S : γ → δ → Prop} {P : ι → κ → Prop}

theorem bind {x : Outcome α} {y : Outcome β} {f : α → Outcome γ} {g : β → Outcome δ}
    (h : Agree R x y) (hfg : ∀ a b, R a b → Agree S (f a) (g b)) :
    Agree S (x >>= f) (y >>= g) := by
  cases h with
  | ok h => exact hfg _ _ h
  | error fault => exact .error fault

theorem map {x : Outcome α} {y : Outcome β} {f : α → γ} {g : β → δ} (h : Agree R x y)
    (hfg : ∀ a b, R a b → S (f a) (g b)) : Agree S (f <$> x) (g <$> y) := by
  cases h with
  | ok h => exact .ok (hfg _ _ h)
  | error fault => exact .error fault

theorem imp {T : α → β → Prop} {x : Outcome α} {y : Outcome β} (h : Agree R x y)
    (himp : ∀ a b, x = .ok a → y = .ok b → R a b → T a b) : Agree T x y := by
  cases h with
  | ok h => exact .ok (himp _ _ rfl rfl h)
  | error fault => exact .error fault

/-- Two loops agree if their steps do. -/
theorem foldlM {f : α → ι → Outcome α} {g : β → κ → Outcome β} {xs : List ι} {ys : List κ}
    (hxy : List.Forall₂ P xs ys) (hstep : ∀ a b x y, R a b → P x y → Agree R (f a x) (g b y))
    {a : α} {b : β} (h : R a b) : Agree R (xs.foldlM f a) (ys.foldlM g b) := by
  induction hxy generalizing a b with
  | nil => exact .ok h
  | cons hx _ ih =>
    simp only [List.foldlM_cons]
    exact (hstep _ _ _ _ h hx).bind fun _ _ hab => ih hab

theorem mapM {f : ι → Outcome α} {g : κ → Outcome β} {xs : List ι} {ys : List κ}
    (hxy : List.Forall₂ P xs ys) (hstep : ∀ x y, P x y → Agree R (f x) (g y)) :
    Agree (List.Forall₂ R) (xs.mapM f) (ys.mapM g) := by
  induction hxy with
  | nil => exact .ok .nil
  | cons hx _ ih =>
    simp only [List.mapM_cons]
    exact (hstep _ _ hx).bind fun _ _ hab => ih.bind fun _ _ hrest => .ok (.cons hab hrest)

end Agree

namespace Carries
variable {R : α → β → Prop} {S : γ → δ → Prop}

theorem of_ok {a : α} {b : β} (h : R a b) : Carries R (.ok a) (.ok b) :=
  fun _ ha => ⟨b, rfl, Except.ok.inj ha ▸ h⟩

theorem refl (x : Outcome α) : Carries (· = ·) x x := fun a h => ⟨a, h, rfl⟩

theorem bind {x : Outcome α} {y : Outcome β} {f : α → Outcome γ} {g : β → Outcome δ}
    (h : Carries R x y) (hfg : ∀ a b, R a b → Carries S (f a) (g b)) :
    Carries S (x >>= f) (y >>= g) := by
  intro c hc
  obtain ⟨a, ha, hfa⟩ := bind_eq_ok.mp hc
  obtain ⟨b, rfl, hab⟩ := h a ha
  exact hfg a b hab c hfa

theorem map {x : Outcome α} {y : Outcome β} {f : α → γ} {g : β → δ} (h : Carries R x y)
    (hfg : ∀ a b, R a b → S (f a) (g b)) : Carries S (f <$> x) (g <$> y) := by
  intro c hc
  obtain ⟨a, ha, rfl⟩ := map_eq_ok.mp hc
  obtain ⟨b, rfl, hab⟩ := h a ha
  exact ⟨g b, rfl, hfg a b hab⟩

/-- A loop carries over if each of its steps does. -/
theorem foldlM {f : α → ι → Outcome α} {g : β → ι → Outcome β} {xs : List ι}
    (hstep : ∀ a b x, R a b → Carries R (f a x) (g b x)) {a : α} {b : β} (h : R a b) :
    Carries R (xs.foldlM f a) (xs.foldlM g b) := by
  induction xs generalizing a b with
  | nil => exact of_ok h
  | cons x xs ih =>
    simp only [List.foldlM_cons]
    exact (hstep _ _ _ h).bind fun _ _ hab => ih hab

theorem mapM {f : ι → Outcome α} {g : ι → Outcome β} {xs : List ι}
    (hstep : ∀ x ∈ xs, Carries R (f x) (g x)) :
    Carries (List.Forall₂ R) (xs.mapM f) (xs.mapM g) := by
  induction xs with
  | nil => exact of_ok .nil
  | cons x xs ih =>
    simp only [List.mapM_cons]
    have hrest := ih fun y hy => hstep y (List.mem_cons_of_mem _ hy)
    exact (hstep x List.mem_cons_self).bind fun _ _ hab =>
      hrest.bind fun _ _ hl => of_ok (.cons hab hl)

end Carries

/-- Success carries over from the first side to the second, and if the side condition holds, so does
every fault. -/
structure Tracks (strict : Prop) (R : α → β → Prop) (x : Outcome α) (y : Outcome β) : Prop where
  carries : Carries R x y
  fault : strict → ∀ fault, x = .error fault → y = .error fault

namespace Tracks
variable {strict : Prop} {R : α → β → Prop} {S : γ → δ → Prop}

theorem of_ok {a : α} {b : β} (h : R a b) : Tracks strict R (.ok a) (.ok b) :=
  ⟨.of_ok h, fun _ _ h => by cases h⟩

theorem of_error (fault : Fault) : Tracks strict R (.error fault) (.error fault) :=
  ⟨fun _ h => (by cases h), fun _ _ h => by cases h; rfl⟩

theorem refl (x : Outcome α) : Tracks strict (· = ·) x x := ⟨.refl x, fun _ _ h => h⟩

theorem bind {x : Outcome α} {y : Outcome β} {f : α → Outcome γ} {g : β → Outcome δ}
    (h : Tracks strict R x y) (hfg : ∀ a b, R a b → Tracks strict S (f a) (g b)) :
    Tracks strict S (x >>= f) (y >>= g) where
  carries := h.carries.bind fun a b hab => (hfg a b hab).carries
  fault hstrict fault hfault := by
    rcases bind_eq_error.mp hfault with hx | ⟨a, ha, hfa⟩
    · rw [h.fault hstrict fault hx]
      rfl
    · obtain ⟨b, hb, hab⟩ := h.carries a ha
      exact bind_eq_error.mpr (.inr ⟨b, hb, (hfg a b hab).fault hstrict fault hfa⟩)

theorem map {x : Outcome α} {y : Outcome β} {f : α → γ} {g : β → δ} (h : Tracks strict R x y)
    (hfg : ∀ a b, R a b → S (f a) (g b)) : Tracks strict S (f <$> x) (g <$> y) where
  carries := h.carries.map hfg
  fault hstrict fault hfault := by
    rw [h.fault hstrict fault (map_eq_error.mp hfault)]
    rfl

theorem imp {T : α → β → Prop} {x : Outcome α} {y : Outcome β} (h : Tracks strict R x y)
    (himp : ∀ a b, R a b → T a b) : Tracks strict T x y where
  carries a ha := by
    obtain ⟨b, hb, hab⟩ := h.carries a ha
    exact ⟨b, hb, himp a b hab⟩
  fault := h.fault

theorem foldlM {f : α → ι → Outcome α} {g : β → ι → Outcome β} {xs : List ι}
    (hstep : ∀ a b x, R a b → Tracks strict R (f a x) (g b x)) {a : α} {b : β} (h : R a b) :
    Tracks strict R (xs.foldlM f a) (xs.foldlM g b) := by
  induction xs generalizing a b with
  | nil => exact of_ok h
  | cons x xs ih =>
    simp only [List.foldlM_cons]
    exact (hstep _ _ _ h).bind fun _ _ hab => ih hab

theorem mapM {f : ι → Outcome α} {g : ι → Outcome β} {xs : List ι}
    (hstep : ∀ x, Tracks strict R (f x) (g x)) :
    Tracks strict (List.Forall₂ R) (xs.mapM f) (xs.mapM g) := by
  induction xs with
  | nil => exact of_ok .nil
  | cons x xs ih =>
    simp only [List.mapM_cons]
    exact (hstep x).bind fun _ _ hab => ih.bind fun _ _ hl => of_ok (.cons hab hl)

/-- If the condition holds, both sides fail with the same faults. -/
theorem error_iff {x : Outcome α} {y : Outcome β} (h : Tracks strict R x y) (hstrict : strict)
    (fault : Fault) : x = .error fault ↔ y = .error fault := by
  cases x with
  | error earlier =>
    rw [h.fault hstrict earlier rfl]
    exact ⟨fun he => by cases he; rfl, fun he => by cases he; rfl⟩
  | ok a =>
    obtain ⟨b, rfl, _⟩ := h.carries a rfl
    exact ⟨fun he => (by cases he), fun he => by cases he⟩

end Tracks

/-- The whole succeeds exactly if every step does. Then each step results in one part, and the
parts in order make the whole. Otherwise the whole has the fault of the first step that fails. -/
structure AllOrNothing (step : ι → Outcome β) (part : ι → α → β) (make : List α → γ)
    (xs : List ι) (whole : Outcome γ) : Prop where
  succeeds : (∃ c, whole = .ok c) ↔ ∀ x ∈ xs, ∃ b, step x = .ok b
  parts : ∀ c, whole = .ok c → ∃ parts,
    List.Forall₂ (fun x a => step x = .ok (part x a)) xs parts ∧ c = make parts
  fault : ∀ fault, whole = .error fault → ∃ done x rest, xs = done ++ x :: rest ∧
    (∀ y ∈ done, ∃ b, step y = .ok b) ∧ step x = .error fault

/-- A traversal is all or nothing. -/
theorem AllOrNothing.mapM {f : ι → Outcome α} {step : ι → Outcome β} {part : ι → α → β}
    {xs : List ι} (hstep : ∀ x, step x = part x <$> f x) (make : List α → γ) :
    AllOrNothing step part make xs (make <$> xs.mapM f) := by
  have hparts : ∀ c, make <$> xs.mapM f = .ok c → ∃ parts,
      List.Forall₂ (fun x a => step x = .ok (part x a)) xs parts ∧ c = make parts := by
    intro c hc
    obtain ⟨as, has, rfl⟩ := map_eq_ok.mp hc
    refine ⟨as, (mapM_eq_ok has).imp fun x a ha => ?_, rfl⟩
    rw [hstep, ha]
    rfl
  have hfault : ∀ fault, make <$> xs.mapM f = .error fault → ∃ done x rest,
      xs = done ++ x :: rest ∧ (∀ y ∈ done, ∃ b, step y = .ok b) ∧ step x = .error fault := by
    intro fault hfault
    obtain ⟨done, x, rest, hsplit, hdone, hx⟩ := mapM_eq_error_split (map_eq_error.mp hfault)
    refine ⟨done, x, rest, hsplit, fun y hy => ?_, ?_⟩
    · obtain ⟨a, ha⟩ := hdone y hy
      exact ⟨part y a, by rw [hstep, ha]; rfl⟩
    · rw [hstep, hx]
      rfl
  refine ⟨⟨?_, fun hall => ?_⟩, hparts, hfault⟩
  · rintro ⟨c, hc⟩ x hx
    obtain ⟨parts, hrelated, _⟩ := hparts c hc
    obtain ⟨i, hi, rfl⟩ := List.getElem_of_mem hx
    exact ⟨_, (List.forall₂_iff_get.mp hrelated).2 i hi (hrelated.length_eq ▸ hi)⟩
  · cases hwhole : make <$> xs.mapM f with
    | ok c => exact ⟨c, rfl⟩
    | error fault =>
      obtain ⟨done, x, rest, hsplit, _, hx⟩ := hfault fault hwhole
      obtain ⟨b, hb⟩ := hall x (by simp [hsplit])
      rw [hx] at hb
      cases hb

end StreamSelect.Outcome
