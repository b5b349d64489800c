import Mathlib.Data.List.Basic

namespace runs

variable {σ α : Type*} (next : σ → α → σ)

/-- The state a sequence of actions leaves behind. -/
def exec (s : σ) (acts : List α) : σ := acts.foldl next s

/-- Every action of the run is taken in a state that meets `C`. -/
def AllSteps (C : σ → α → Prop) : σ → List α → Prop
  | _, [] => True
  | s, a :: acts => C s a ∧ AllSteps C (next s a) acts

/-- Every state of the run meets `P`, the first and the last included. -/
def Always (P : σ → Prop) : σ → List α → Prop
  | s, [] => P s
  | s, a :: acts => P s ∧ Always P (next s a) acts

/-- The states that runs of enabled actions reach from `start`. -/
def Reachable (enabled : σ → α → Prop) (start s : σ) : Prop :=
  ∃ acts, AllSteps next enabled start acts ∧ exec next start acts = s

variable {next}

theorem AllSteps.and {C D : σ → α → Prop} {s : σ} {acts : List α}
    (hC : AllSteps next C s acts) (hD : AllSteps next D s acts) :
    AllSteps next (fun s a => C s a ∧ D s a) s acts := by
  induction acts generalizing s with
  | nil => trivial
  | cons a acts ih => exact ⟨⟨hC.1, hD.1⟩, ih hC.2 hD.2⟩

theorem AllSteps.imp {C D : σ → α → Prop} (himp : ∀ s a, C s a → D s a) {s : σ} {acts : List α}
    (hC : AllSteps next C s acts) : AllSteps next D s acts := by
  induction acts generalizing s with
  | nil => trivial
  | cons a acts ih => exact ⟨himp s a hC.1, ih hC.2⟩

/-- A run that goes on with another one. -/
theorem AllSteps.append {C : σ → α → Prop} {s : σ} {acts more : List α} (hacts : AllSteps next C s acts)
    (hmore : AllSteps next C (exec next s acts) more) : AllSteps next C s (acts ++ more) := by
  induction acts generalizing s with
  | nil => exact hmore
  | cons a acts ih => exact ⟨hacts.1, ih hacts.2 hmore⟩

theorem exec_append (s : σ) (acts more : List α) :
    exec next s (acts ++ more) = exec next (exec next s acts) more :=
  List.foldl_append ..

/-- A condition on the actions alone may be checked on each of them. -/
theorem AllSteps.of_forall_mem {D : α → Prop} {s : σ} {acts : List α}
    (hacts : ∀ a ∈ acts, D a) : AllSteps next (fun _ a => D a) s acts := by
  induction acts generalizing s with
  | nil => trivial
  | cons a acts ih =>
    exact ⟨hacts a List.mem_cons_self, ih fun b hb => hacts b (List.mem_cons_of_mem a hb)⟩

/-- What every step preserves, the whole run preserves. The step may use that
it is taken in a state that meets `C`. -/
theorem exec_invariant (I : σ → Prop) {C : σ → α → Prop}
    (hstep : ∀ s a, I s → C s a → I (next s a)) {s : σ} {acts : List α}
    (hI : I s) (hacts : AllSteps next C s acts) : I (exec next s acts) := by
  induction acts generalizing s with
  | nil => exact hI
  | cons a acts ih => exact ih (hstep s a hI hacts.1) hacts.2

theorem Reachable.invariant (I : σ → Prop) {enabled : σ → α → Prop} {start s : σ}
    (hstep : ∀ s a, I s → enabled s a → I (next s a)) (hI : I start)
    (hreach : Reachable next enabled start s) : I s := by
  obtain ⟨acts, hacts, rfl⟩ := hreach
  exact exec_invariant I hstep hI hacts

instance AllSteps.decidable {C : σ → α → Prop} [hC : ∀ s a, Decidable (C s a)] (s : σ) (acts : List α) :
    Decidable (AllSteps next C s acts) :=
  match acts with
  | [] => isTrue trivial
  | a :: acts => @instDecidableAnd _ _ (hC s a) (AllSteps.decidable (next s a) acts)

theorem Always.exec {P : σ → Prop} {s : σ} {acts : List α} (halways : Always next P s acts) :
    P (exec next s acts) := by
  induction acts generalizing s with
  | nil => exact halways
  | cons a acts ih => exact ih halways.2

/-- What an invariant implies holds in every state of the run. -/
theorem Always.of_invariant (I : σ → Prop) {P : σ → Prop} {C : σ → α → Prop}
    (hstep : ∀ s a, I s → C s a → I (next s a)) (hP : ∀ s, I s → P s)
    {s : σ} {acts : List α} (hI : I s) (hacts : AllSteps next C s acts) : Always next P s acts := by
  induction acts generalizing s with
  | nil => exact hP s hI
  | cons a acts ih => exact ⟨hP s hI, ih (hstep s a hI hacts.1) hacts.2⟩

/-- A run whose steps each preserve `I` and, under `I` and `C`, establish `D`
meets `D` at every step. -/
theorem AllSteps.of_invariant (I : σ → Prop) {C D : σ → α → Prop}
    (hstep : ∀ s a, I s → C s a → I (next s a)) (hD : ∀ s a, I s → C s a → D s a)
    {s : σ} {acts : List α} (hI : I s) (hacts : AllSteps next C s acts) :
    AllSteps next D s acts := by
  induction acts generalizing s with
  | nil => trivial
  | cons a acts ih => exact ⟨hD s a hI hacts.1, ih (hstep s a hI hacts.1) hacts.2⟩

/-- When, in the states of an invariant, a step meets `E` exactly if it meets `D`,
and keeps the invariant if it does, a run meets the one exactly if it meets the other. -/
theorem allSteps_iff (I : σ → Prop) {C D E : σ → α → Prop} (hiff : ∀ s a, I s → C s a → (E s a ↔ D s a))
    (hstep : ∀ s a, I s → C s a → D s a → I (next s a)) {s : σ} {acts : List α} (hI : I s)
    (hacts : AllSteps next C s acts) : AllSteps next E s acts ↔ AllSteps next D s acts := by
  induction acts generalizing s with
  | nil => exact Iff.rfl
  | cons a acts ih =>
    have hone := hiff s a hI hacts.1
    constructor
    · rintro ⟨hE, hrest⟩
      have hD := hone.mp hE
      exact ⟨hD, (ih (hstep s a hI hacts.1 hD) hacts.2).mp hrest⟩
    · rintro ⟨hD, hrest⟩
      exact ⟨hone.mpr hD, (ih (hstep s a hI hacts.1 hD) hacts.2).mpr hrest⟩

/-- A run that somewhere takes an action of kind `E` ends in `Q`, when such an
action establishes `Q` and every step keeps it. -/
theorem exec_of_mem (I Q : σ → Prop) (E : α → Prop) {C : σ → α → Prop}
    (hstep : ∀ s a, I s → C s a → I (next s a))
    (hkeep : ∀ s a, I s → Q s → C s a → Q (next s a))
    (hestablish : ∀ s a, I s → C s a → E a → Q (next s a))
    {s : σ} {acts : List α} (hI : I s) (hacts : AllSteps next C s acts)
    (hmem : ∃ a ∈ acts, E a) : Q (exec next s acts) := by
  induction acts generalizing s with
  | nil => simp at hmem
  | cons a acts ih =>
    have hnext := hstep s a hI hacts.1
    by_cases hE : E a
    · have hQ := hestablish s a hI hacts.1 hE
      exact (exec_invariant (fun s => I s ∧ Q s)
        (fun s a h hC => ⟨hstep s a h.1 hC, hkeep s a h.1 h.2 hC⟩) ⟨hnext, hQ⟩ hacts.2).2
    · obtain ⟨b, hb, hEb⟩ := hmem
      have hrest : b ∈ acts := by
        rcases List.mem_cons.mp hb with rfl | hb
        · exact absurd hEb hE
        · exact hb
      exact ih hnext hacts.2 ⟨b, hrest, hEb⟩

/-- When, in the states of an invariant, a step keeps `P` exactly if it meets
`D`, a run keeps `P` throughout exactly if all its steps meet `D`. -/
theorem always_iff_allSteps (I P : σ → Prop) {C D : σ → α → Prop}
    (hstep : ∀ s a, I s → C s a → I (next s a))
    (hP : ∀ s a, I s → P s → C s a → (P (next s a) ↔ D s a))
    {s : σ} {acts : List α} (hI : I s) (hs : P s) (hacts : AllSteps next C s acts) :
    Always next P s acts ↔ AllSteps next D s acts := by
  induction acts generalizing s with
  | nil => exact ⟨fun _ => trivial, fun _ => hs⟩
  | cons a acts ih =>
    have hone := hP s a hI hs hacts.1
    constructor
    · rintro ⟨_, halways⟩
      have hnext : P (next s a) := by
        cases acts with
        | nil => exact halways
        | cons b acts => exact halways.1
      exact ⟨hone.mp hnext, (ih (hstep s a hI hacts.1) hnext hacts.2).mp halways⟩
    · rintro ⟨hd, hrest⟩
      have hnext := hone.mpr hd
      exact ⟨hs, (ih (hstep s a hI hacts.1) hnext hacts.2).mpr hrest⟩

end runs
