import Epos.Lib.LinkedList

namespace chains

variable {P : Type*} {null : P} {next prev next' prev' : P → P}

/-- From `p` on, `next` leads through the nodes listed and then to `null`, and `prev` leads
back from each of them, from the first one to `q`. -/
def Double (null : P) (next prev : P → P) : P → P → List P → Prop
  | _, p, [] => p = null
  | q, p, a :: nodes => p = a ∧ a ≠ null ∧ prev a = q ∧ Double null next prev a (next a) nodes

theorem Double.chain {q p : P} {nodes : List P} (hlist : Double null next prev q p nodes) :
    Chain null next p nodes := by
  induction nodes generalizing q p with
  | nil => exact hlist
  | cons a nodes ih => exact ⟨hlist.1, hlist.2.1, ih hlist.2.2.2⟩

/-- Links of other nodes do not matter. -/
theorem Double.congr {q p : P} {nodes : List P} (hlist : Double null next prev q p nodes)
    (hnext : ∀ a ∈ nodes, next' a = next a) (hprev : ∀ a ∈ nodes, prev' a = prev a) :
    Double null next' prev' q p nodes := by
  induction nodes generalizing q p with
  | nil => exact hlist
  | cons a nodes ih =>
    obtain ⟨hp, hne, hq, htail⟩ := hlist
    rw [← hnext a List.mem_cons_self] at htail
    exact ⟨hp, hne, (hprev a List.mem_cons_self).trans hq,
      ih htail (fun b hb => hnext b (List.mem_cons_of_mem a hb)) fun b hb => hprev b (List.mem_cons_of_mem a hb)⟩

/-- The nodes on both sides of a node. -/
theorem Double.neighbours {q p a : P} {before after : List P}
    (hlist : Double null next prev q p (before ++ a :: after)) :
    prev a = before.getLastD q ∧ next a = after.headD null := by
  induction before generalizing q p with
  | nil =>
    obtain ⟨-, -, hq, htail⟩ := hlist
    exact ⟨hq, htail.chain.head⟩
  | cons b before ih =>
    rw [List.getLastD_cons]
    exact ih hlist.2.2.2

variable [DecidableEq P]

/-- A new node before the first one. -/
theorem Double.push {p a : P} {nodes : List P} (hlist : Double null next prev null p nodes) (ha : a ≠ null)
    (hhead : next' a = p) (hfirst : prev' a = null) (hnext : ∀ x ∈ nodes, next' x = next x)
    (hprev : ∀ x ∈ nodes, prev' x = if x = p then a else prev x) :
    Double null next' prev' null a (a :: nodes) := by
  have hnodup := hlist.chain.nodup
  refine ⟨rfl, ha, hfirst, ?_⟩
  rw [hhead]
  cases nodes with
  | nil => exact hlist
  | cons b nodes =>
    obtain ⟨rfl, hne, -, htail⟩ := hlist
    refine ⟨rfl, hne, (hprev p List.mem_cons_self).trans (if_pos rfl), ?_⟩
    rw [hnext p List.mem_cons_self]
    apply htail.congr
    · exact fun x hx => hnext x (List.mem_cons_of_mem p hx)
    · intro x hx
      rw [hprev x (List.mem_cons_of_mem p hx)]
      exact if_neg (ne_of_mem_of_not_mem hx (List.nodup_cons.mp hnodup).1)

/-- `a->next->prev = a->prev; a->prev->next = a->next` takes out the node `a`. -/
theorem Double.unlink {q p a : P} {before after : List P}
    (hlist : Double null next prev q p (before ++ a :: after)) (hq : q ∉ before ++ a :: after)
    (hnext : ∀ x ∈ before ++ after, next' x = if x = prev a then next a else next x)
    (hprev : ∀ x ∈ before ++ after, prev' x = if x = next a then prev a else prev x) :
    Double null next' prev' q (if p = a then next a else p) (before ++ after) := by
  have hnodup := hlist.chain.nodup
  obtain ⟨hback, hforth⟩ := hlist.neighbours
  induction before generalizing q p with
  | nil =>
    obtain ⟨rfl, -, hfirst, htail⟩ := hlist
    rw [if_pos rfl, List.nil_append]
    have hout : ∀ x ∈ after, x ≠ q := fun x hx => ne_of_mem_of_not_mem (List.mem_cons_of_mem p hx) hq
    cases after with
    | nil => exact htail
    | cons b after =>
      obtain ⟨hb, hne, -, htail⟩ := htail
      have hnodup' := (List.nodup_cons.mp (List.nodup_cons.mp hnodup).2).1
      refine ⟨hb, hne, ?_, ?_⟩
      · rw [hprev b List.mem_cons_self, if_pos hb.symm, hfirst]
      · rw [hnext b List.mem_cons_self, hfirst, if_neg (hout b List.mem_cons_self)]
        apply htail.congr
        · intro x hx
          rw [hnext x (List.mem_cons_of_mem b hx), hfirst, if_neg (hout x (List.mem_cons_of_mem b hx))]
        · intro x hx
          rw [hprev x (List.mem_cons_of_mem b hx), hb]
          exact if_neg (ne_of_mem_of_not_mem hx hnodup')
  | cons c before ih =>
    obtain ⟨rfl, hne, hfirst, htail⟩ := hlist
    rw [List.cons_append, List.nodup_cons] at hnodup
    have hpa : p ≠ a := fun h => hnodup.1 (h ▸ List.mem_append_right before List.mem_cons_self)
    have hrest := ih htail hnodup.1 (fun x hx => hnext x (List.mem_cons_of_mem p hx))
      (fun x hx => hprev x (List.mem_cons_of_mem p hx)) hnodup.2 (by rwa [List.getLastD_cons] at hback)
    rw [if_neg hpa]
    refine ⟨rfl, hne, ?_, ?_⟩
    · -- the node after `a` is not among those before it
      have hne' : p ≠ next a := by
        rw [hforth]
        cases after with
        | nil => exact hne
        | cons d after =>
          intro h
          exact hnodup.1 (h ▸ List.mem_append_right before (List.mem_cons_of_mem a List.mem_cons_self))
      rw [hprev p List.mem_cons_self, if_neg hne', hfirst]
    · have hlink : next' p = if next p = a then next a else next p := by
        rw [hnext p List.mem_cons_self, hback, List.getLastD_cons]
        cases before with
        | nil =>
          obtain ⟨ha, -⟩ := htail
          rw [List.getLastD_nil, if_pos rfl, if_pos ha]
        | cons d before =>
          obtain ⟨hd, -⟩ := htail
          rw [List.cons_append, List.nodup_cons] at hnodup
          have hda : d ≠ a := by
            rintro rfl
            exact hnodup.2.1 (List.mem_append_right before List.mem_cons_self)
          have hpd : p ≠ (d :: before).getLastD p := by
            intro h
            have hmem : (d :: before).getLastD p ∈ d :: before := by
              rw [List.getLastD_cons]
              exact List.getLastD_mem_cons
            rw [← h] at hmem
            exact hnodup.1 (List.mem_append_left (a :: after) hmem)
          rw [if_neg hpd, hd, if_neg hda]
      rw [hlink]
      exact hrest

end chains
