import Mathlib.Data.Fintype.Card
import Mathlib.Data.List.Nodup
import Mathlib.Logic.Function.Basic

namespace chains

variable {P σ ρ : Type*} {null : P} {next : P → P}

/-- From `p` on, `next` leads through the nodes listed and then to `null`. -/
def Chain (null : P) (next : P → P) : P → List P → Prop
  | p, [] => p = null
  | p, a :: nodes => p = a ∧ a ≠ null ∧ Chain null next (next a) nodes

theorem Chain.head {p : P} {nodes : List P} (hchain : Chain null next p nodes) :
    p = nodes.headD null := by
  cases nodes with
  | nil => exact hchain
  | cons a nodes => exact hchain.1

theorem Chain.ne_null {p a : P} {nodes : List P} (hchain : Chain null next p nodes)
    (hmem : a ∈ nodes) : a ≠ null := by
  induction nodes generalizing p with
  | nil => cases hmem
  | cons b nodes ih =>
    cases hmem with
    | head => exact hchain.2.1
    | tail _ hmem => exact ih hchain.2.2 hmem

/-- Links of other nodes do not matter. -/
theorem Chain.congr {next' : P → P} {p : P} {nodes : List P} (hchain : Chain null next p nodes)
    (hsame : ∀ a ∈ nodes, next' a = next a) : Chain null next' p nodes := by
  induction nodes generalizing p with
  | nil => exact hchain
  | cons a nodes ih =>
    obtain ⟨hp, hne, htail⟩ := hchain
    rw [← hsame a List.mem_cons_self] at htail
    exact ⟨hp, hne, ih htail fun b hb => hsame b (List.mem_cons_of_mem a hb)⟩

/-- A list has one list of nodes. -/
theorem Chain.unique {p : P} {nodes others : List P} (hchain : Chain null next p nodes)
    (hother : Chain null next p others) : nodes = others := by
  induction nodes generalizing p others with
  | nil =>
    obtain rfl : p = null := hchain
    cases others with
    | nil => rfl
    | cons a others => exact absurd hother.1.symm hother.2.1
  | cons a nodes ih =>
    obtain ⟨rfl, hne, htail⟩ := hchain
    cases others with
    | nil => exact absurd hother hne
    | cons b others =>
      obtain ⟨rfl, -, htail'⟩ := hother
      rw [ih htail htail']

theorem Chain.after {p a : P} {before after : List P} (hchain : Chain null next p (before ++ a :: after)) :
    Chain null next (next a) after := by
  induction before generalizing p with
  | nil => exact hchain.1 ▸ hchain.2.2
  | cons b before ih => exact ih hchain.2.2

/-- A list never comes back to a node: it would go on from there as it did before. -/
theorem Chain.nodup {p : P} {nodes : List P} (hchain : Chain null next p nodes) : nodes.Nodup := by
  induction nodes generalizing p with
  | nil => exact List.nodup_nil
  | cons a nodes ih =>
    obtain ⟨rfl, -, htail⟩ := hchain
    refine List.nodup_cons.mpr ⟨fun hmem => ?_, ih htail⟩
    obtain ⟨before, after, rfl⟩ := List.append_of_mem hmem
    have hlength := congrArg List.length (htail.unique htail.after)
    simp only [List.length_append, List.length_cons] at hlength
    omega

/-- Nodes that are told apart by `n` numbers, which `null` has one of, are fewer than `n`. -/
theorem Chain.length_lt {p : P} {nodes : List P} (hchain : Chain null next p nodes) (hnodup : nodes.Nodup)
    {n : Nat} {f : P → Fin n} (hf : Function.Injective f) : nodes.length < n := by
  have hnull : null ∉ nodes := fun hmem => hchain.ne_null hmem rfl
  have hall : ((null :: nodes).map f).Nodup := (List.nodup_cons.mpr ⟨hnull, hnodup⟩).map hf
  have hcard := hall.length_le_card
  rwa [List.length_map, List.length_cons, Fintype.card_fin] at hcard

theorem Chain.next_eq {p : P} {nodes : List P} (hchain : Chain null next p nodes) {i : Nat} {a : P}
    (ha : nodes[i]? = some a) : next a = (nodes[i + 1]?).getD null := by
  induction nodes generalizing p i with
  | nil => cases ha
  | cons b nodes ih =>
    obtain ⟨rfl, -, htail⟩ := hchain
    cases i with
    | zero =>
      obtain rfl := Option.some.inj ha
      rw [htail.head, List.getElem?_cons_succ]
      cases nodes <;> rfl
    | succ i => exact ih htail ha

variable [DecidableEq P]

/-- What one pass of a loop over a list does: it goes on to the next node, or
it leaves the loop. -/
inductive Pass (σ ρ : Type*) where
  | go (s : σ)
  | stop (r : ρ)

def Pass.map {τ ω : Type*} (f : σ → τ) (g : ρ → ω) : Pass σ ρ → Pass τ ω
  | .go s => .go (f s)
  | .stop r => .stop (g r)

/-- The loop `for (; p != null; q = p, p = p->next)`, where `q` trails `p` by one node. -/
def walk (null : P) (next : P → P) (body : P → P → σ → Pass σ ρ) (finish : P → σ → ρ) :
    Nat → P → P → σ → Option ρ
  | 0, _, _, _ => none
  | fuel + 1, q, p, s =>
    if p = null then some (finish q s)
    else
      match body q p s with
      | .go s => walk null next body finish fuel p (next p) s
      | .stop r => some r

theorem walk_null (body : P → P → σ → Pass σ ρ) (finish : P → σ → ρ) {fuel : Nat} (hfuel : 0 < fuel)
    (q : P) (s : σ) : walk null next body finish fuel q null s = some (finish q s) := by
  obtain ⟨fuel, rfl⟩ := Nat.exists_eq_succ_of_ne_zero (Nat.ne_of_gt hfuel)
  rw [walk, if_pos rfl]

/-- A loop follows another one if each of its passes does. -/
theorem walk_map {τ ω : Type*} {body : P → P → σ → Pass σ ρ} {finish : P → σ → ρ} {body' : P → P → τ → Pass τ ω}
    {finish' : P → τ → ω} (f : σ → τ) (g : ρ → ω) (hbody : ∀ q p s, body' q p (f s) = (body q p s).map f g)
    (hfinish : ∀ q s, finish' q (f s) = g (finish q s)) (fuel : Nat) (q p : P) (s : σ) :
    walk null next body' finish' fuel q p (f s) = (walk null next body finish fuel q p s).map g := by
  induction fuel generalizing q p s with
  | zero => rfl
  | succ fuel ih =>
    rw [walk, walk]
    by_cases hp : p = null
    · rw [if_pos hp, if_pos hp, hfinish, Option.map_some]
    · rw [if_neg hp, if_neg hp, hbody]
      cases body q p s with
      | go t => exact ih p (next p) t
      | stop r => rfl

/-- The loop ends with `r` once the nodes `before` are passed and `after` are left:
none is left, or the first of them stops it. -/
def Exit (body : P → P → σ → Pass σ ρ) (finish : P → σ → ρ) (q : P) (before : List P) (s : σ)
    (r : ρ) : List P → Prop
  | [] => r = finish (before.getLastD q) s
  | a :: _ => body (before.getLastD q) a s = .stop r

/-- The rule of the loop: it ends, with whatever `I` says of the nodes passed
if each pass that goes on keeps `I`. -/
theorem Chain.walk_rule {p : P} {nodes : List P} (hchain : Chain null next p nodes) {fuel : Nat}
    (hfuel : nodes.length < fuel) (body : P → P → σ → Pass σ ρ) (finish : P → σ → ρ)
    (I : List P → σ → Prop) (q : P) {s : σ} (hI : I [] s)
    (hgo : ∀ before a after t u, nodes = before ++ a :: after → I before t →
      body (before.getLastD q) a t = .go u → I (before ++ [a]) u) :
    ∃ before after t r, nodes = before ++ after ∧ I before t ∧
      Exit body finish q before t r after ∧ walk null next body finish fuel q p s = some r := by
  induction nodes generalizing p q s fuel I with
  | nil =>
    obtain rfl : p = null := hchain
    exact ⟨[], [], s, finish q s, rfl, hI, rfl, walk_null body finish hfuel q s⟩
  | cons a nodes ih =>
    obtain ⟨rfl, hne, htail⟩ := hchain
    obtain ⟨fuel, rfl⟩ := Nat.exists_eq_succ_of_ne_zero (Nat.ne_zero_of_lt hfuel)
    rw [walk, if_neg hne]
    cases hbody : body q p s with
    | stop r => exact ⟨[], p :: nodes, s, r, rfl, hI, hbody, rfl⟩
    | go u =>
      have hfirst : I [p] u := hgo [] p nodes s u rfl hI hbody
      obtain ⟨before, after, t, r, rfl, hbefore, hexit, hwalk⟩ :=
        ih htail (Nat.lt_of_succ_lt_succ hfuel) (fun before => I (p :: before)) p hfirst
          fun before b after t u hnodes ht hb =>
            hgo (p :: before) b after t u (congrArg (p :: ·) hnodes) ht
              (by rwa [List.getLastD_cons])
      refine ⟨p :: before, after, t, r, rfl, hbefore, ?_, hwalk⟩
      cases after with
      | nil => rwa [Exit, List.getLastD_cons]
      | cons b after => rwa [Exit, List.getLastD_cons]

/-- The rule of a loop without variables of its own: `Q` holds of the nodes passed
if a node that is passed has it. -/
theorem Chain.search_rule {p : P} {nodes : List P} (hchain : Chain null next p nodes) {fuel : Nat}
    (hfuel : nodes.length < fuel) (body : P → P → Unit → Pass Unit ρ) (finish : P → Unit → ρ)
    (Q : P → Prop) (q : P) (hgo : ∀ q, ∀ a ∈ nodes, body q a () = .go () → Q a) :
    ∃ before after r, nodes = before ++ after ∧ (∀ a ∈ before, Q a) ∧
      Exit body finish q before () r after ∧ walk null next body finish fuel q p () = some r := by
  obtain ⟨before, after, _, r, hsplit, hbefore, hexit, hwalk⟩ :=
    hchain.walk_rule hfuel body finish (fun before _ => ∀ a ∈ before, Q a) q
      (fun _ h => absurd h List.not_mem_nil) (by
        intro before a after _ _ hsplit ht hbody b hb
        obtain hb | hb := List.mem_append.mp hb
        · exact ht b hb
        · rw [List.mem_singleton.mp hb]
          exact hgo _ a (hsplit ▸ List.mem_append_right before List.mem_cons_self) hbody)
  exact ⟨before, after, r, hsplit, hbefore, hexit, hwalk⟩

theorem Chain.update_of_not_mem {p x y : P} {nodes : List P} (hchain : Chain null next p nodes)
    (hmem : x ∉ nodes) : Chain null (Function.update next x y) p nodes :=
  hchain.congr fun _ ha => Function.update_of_ne (ne_of_mem_of_not_mem ha hmem) _ _

/-- A node linked to the head of a list is the head of a longer one. -/
theorem Chain.push {p x : P} {nodes : List P} (hchain : Chain null next p nodes) (hx : x ≠ null)
    (hmem : x ∉ nodes) : Chain null (Function.update next x p) x (x :: nodes) := by
  refine ⟨rfl, hx, ?_⟩
  rw [Function.update_self]
  exact hchain.update_of_not_mem hmem

/-- `x->next = q->next; q->next = x` puts `x` after `q`. -/
theorem Chain.insert {p q x : P} {before after : List P}
    (hchain : Chain null next p (before ++ q :: after)) (hnodup : (before ++ q :: after).Nodup)
    (hx : x ≠ null) (hmem : x ∉ before ++ q :: after) :
    Chain null (Function.update (Function.update next x (next q)) q x) p
      (before ++ q :: x :: after) := by
  induction before generalizing p with
  | nil =>
    simp only [List.nil_append, List.mem_cons, not_or, List.nodup_cons] at hmem hnodup hchain ⊢
    obtain ⟨rfl, hne, htail⟩ := hchain
    refine ⟨rfl, hne, ?_⟩
    rw [Function.update_self]
    refine ⟨rfl, hx, ?_⟩
    rw [Function.update_of_ne hmem.1, Function.update_self]
    exact (htail.update_of_not_mem hmem.2).update_of_not_mem hnodup.1
  | cons a before ih =>
    simp only [List.cons_append, List.mem_cons, not_or, List.nodup_cons] at hmem hnodup
    obtain ⟨rfl, hne, htail⟩ := hchain
    have hq : p ≠ q := fun h => hnodup.1 (h ▸ List.mem_append_right _ List.mem_cons_self)
    refine ⟨rfl, hne, ?_⟩
    rw [Function.update_of_ne hq, Function.update_of_ne (Ne.symm hmem.1)]
    exact ih htail hnodup.2 hmem.2

/-- `q->next = a->next` takes out the node `a` after `q`. -/
theorem Chain.remove {p q a : P} {before after : List P}
    (hchain : Chain null next p (before ++ q :: a :: after))
    (hnodup : (before ++ q :: a :: after).Nodup) :
    Chain null (Function.update next q (next a)) p (before ++ q :: after) := by
  induction before generalizing p with
  | nil =>
    simp only [List.nil_append, List.mem_cons, not_or, List.nodup_cons] at hnodup hchain ⊢
    obtain ⟨rfl, hne, hpa, -, htail⟩ := hchain
    refine ⟨rfl, hne, ?_⟩
    rw [Function.update_self]
    exact htail.update_of_not_mem hnodup.1.2
  | cons b before ih =>
    simp only [List.cons_append, List.nodup_cons] at hnodup
    obtain ⟨rfl, hne, htail⟩ := hchain
    have hq : p ≠ q := fun h => hnodup.1 (h ▸ List.mem_append_right _ List.mem_cons_self)
    refine ⟨rfl, hne, ?_⟩
    rw [Function.update_of_ne hq]
    exact ih htail hnodup.2

/-- A list searched round and round, from the node after `p` on. -/
def circle (null : P) (next : P → P) (head : P) (stop : P → Bool) : Nat → P → Option P
  | 0, _ => none
  | fuel + 1, p =>
    let p := if next p = null then head else next p
    if stop p then some p else circle null next head stop fuel p

/-- What is searched when the search has come to `p`. -/
theorem Chain.circle_seek {head p a : P} {before after : List P} (hchain : Chain null next p (before ++ a :: after))
    {stop : P → Bool} (hstop : stop a = true) {fuel : Nat} (hfuel : before.length ≤ fuel) :
    (if stop p then some p else circle null next head stop fuel p) = (before ++ [a]).find? stop := by
  induction before generalizing p fuel with
  | nil =>
    obtain ⟨rfl, -⟩ := hchain
    rw [if_pos hstop, List.nil_append, List.find?_cons_of_pos hstop]
  | cons b before ih =>
    obtain ⟨rfl, -, htail⟩ := hchain
    rw [List.cons_append]
    by_cases hb : stop p = true
    · rw [if_pos hb, List.find?_cons_of_pos hb]
    · obtain ⟨fuel, rfl⟩ := Nat.exists_eq_succ_of_ne_zero (Nat.ne_zero_of_lt hfuel)
      have hnext : next p ≠ null := by
        cases before with
        | nil => exact htail.1.symm ▸ htail.2.1
        | cons c before => exact htail.1.symm ▸ htail.2.1
      rw [if_neg hb, List.find?_cons_of_neg hb, circle, if_neg hnext]
      exact ih htail (Nat.le_of_succ_le_succ hfuel)

/-- From a node that stops it, the search goes through the nodes after it and then
through those before it, and is back at this node at the latest. -/
theorem Chain.circle_find {p a : P} {before after : List P} (hchain : Chain null next p (before ++ a :: after))
    {stop : P → Bool} (hstop : stop a = true) {fuel : Nat} (hfuel : before.length + after.length < fuel) :
    circle null next p stop fuel a = (after ++ (before ++ [a])).find? stop := by
  -- over the nodes still to come before the end of the list, from any of its nodes on
  have hround : ∀ {rest : List P} {c : P} {fuel : Nat}, Chain null next (next c) rest →
      before.length + rest.length < fuel →
      circle null next p stop fuel c = (rest ++ (before ++ [a])).find? stop := by
    intro rest
    induction rest with
    | nil =>
      intro c fuel hend hfuel
      obtain ⟨fuel, rfl⟩ := Nat.exists_eq_succ_of_ne_zero (Nat.ne_zero_of_lt hfuel)
      have hnull : next c = null := hend
      rw [circle, if_pos hnull]
      exact hchain.circle_seek hstop (Nat.le_of_lt_succ hfuel)
    | cons b rest ih =>
      intro c fuel hrest hfuel
      obtain ⟨fuel, rfl⟩ := Nat.exists_eq_succ_of_ne_zero (Nat.ne_zero_of_lt hfuel)
      obtain ⟨hb, hne, htail⟩ := hrest
      rw [circle, hb, if_neg hne, List.cons_append]
      by_cases hnow : stop b = true
      · rw [List.find?_cons_of_pos hnow]
        exact if_pos hnow
      · rw [List.find?_cons_of_neg hnow]
        exact (if_neg hnow).trans (ih htail (Nat.lt_of_succ_lt_succ hfuel))
  exact hround hchain.after hfuel

/-- From a node that stops it, the search ends. -/
theorem Chain.circle_returns {p : P} {nodes : List P} (hchain : Chain null next p nodes) {stop : P → Bool} {a : P}
    (hmem : a ∈ nodes) (hstop : stop a = true) {fuel : Nat} (hfuel : nodes.length ≤ fuel) :
    ∃ r ∈ nodes, stop r = true ∧ circle null next p stop fuel a = some r := by
  obtain ⟨before, after, rfl⟩ := List.append_of_mem hmem
  rw [List.length_append, List.length_cons] at hfuel
  have hfound : ((after ++ (before ++ [a])).find? stop).isSome := by
    rw [List.find?_isSome]
    exact ⟨a, by simp, hstop⟩
  obtain ⟨r, hr⟩ := Option.isSome_iff_exists.mp hfound
  have hin := List.mem_of_find?_eq_some hr
  simp only [List.mem_append, List.mem_singleton] at hin
  refine ⟨r, ?_, List.find?_some hr, ?_⟩
  · simp only [List.mem_append, List.mem_cons]
    tauto
  · rw [hchain.circle_find hstop (by omega), hr]

end chains
