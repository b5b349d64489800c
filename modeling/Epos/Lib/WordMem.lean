import Mathlib.Algebra.Group.Nat.Defs
import Mathlib.Data.List.Nodup
import Mathlib.Logic.Function.Basic

namespace words

/-- A property of the words of a list is decided on the list, not on all words. -/
instance (priority := high) decidable_forall_mem {α : Type*} (p : α → Prop) [DecidablePred p] (l : List α) :
    Decidable (∀ a ∈ l, p a) :=
  List.decidableBAll p l

variable {α β : Type*} [DecidableEq α]

/-- Memory as the words found at addresses; a store replaces one of them. -/
def store (mem : α → β) (addr : α) (word : β) : α → β := Function.update mem addr word

/-- The loop that stores the words `val 0`, …, `val (n - 1)` in this order. -/
def stores (addr : Nat → α) (val : Nat → β) (mem : α → β) : Nat → α → β
  | 0 => mem
  | n + 1 => store (stores addr val mem n) (addr n) (val n)

@[simp] theorem store_self (mem : α → β) (addr : α) (word : β) : store mem addr word addr = word := by
  simp only [store, Function.update_self]

theorem store_of_ne {mem : α → β} {addr a : α} {word : β} (hne : a ≠ addr) :
    store mem addr word a = mem a := by
  simp only [store, Function.update_of_ne hne]

/-- A loop leaves every address alone that it does not store to. -/
theorem stores_of_forall_ne {addr : Nat → α} {val : Nat → β} {mem : α → β} {n : Nat} {a : α}
    (hne : ∀ i < n, a ≠ addr i) : stores addr val mem n a = mem a := by
  induction n with
  | zero => rfl
  | succ n ih =>
    rw [stores, store_of_ne (hne n (Nat.lt_succ_self n))]
    exact ih fun i hi => hne i (Nat.lt_succ_of_lt hi)

/-- A loop that stores one word leaves it at every address it stores to. -/
theorem stores_const {addr : Nat → α} {word : β} {mem : α → β} {n : Nat} {a : α}
    (hmem : ∃ i < n, a = addr i) : stores addr (fun _ => word) mem n a = word := by
  obtain ⟨i, hi, rfl⟩ := hmem
  induction n with
  | zero => omega
  | succ n ih =>
    by_cases heq : addr i = addr n
    · rw [stores, heq, store_self]
    · rw [stores, store_of_ne heq]
      have hne : i ≠ n := fun h => heq (congrArg addr h)
      exact ih (by omega)

/-- Several stores, the first of the list first. -/
def storeAll (mem : α → β) (ws : List (α × β)) : α → β :=
  ws.foldl (fun mem p => store mem p.1 p.2) mem

@[simp] theorem storeAll_nil (mem : α → β) : storeAll mem [] = mem := rfl

@[simp] theorem storeAll_cons (mem : α → β) (p : α × β) (ws : List (α × β)) :
    storeAll mem (p :: ws) = storeAll (store mem p.1 p.2) ws := rfl

theorem storeAll_append (mem : α → β) (ws vs : List (α × β)) :
    storeAll mem (ws ++ vs) = storeAll (storeAll mem ws) vs := by
  simp only [storeAll, List.foldl_append]

theorem storeAll_of_not_mem {mem : α → β} {ws : List (α × β)} {a : α}
    (hmem : a ∉ ws.map Prod.fst) : storeAll mem ws a = mem a := by
  induction ws generalizing mem with
  | nil => rfl
  | cons p ws ih =>
    simp only [List.map_cons, List.mem_cons, not_or] at hmem
    rw [storeAll_cons, ih hmem.2, store_of_ne hmem.1]

/-- Stores to distinct addresses do not get in each other's way. -/
theorem storeAll_of_mem {mem : α → β} {ws : List (α × β)} {a : α} {w : β}
    (hdistinct : (ws.map Prod.fst).Nodup) (hmem : (a, w) ∈ ws) : storeAll mem ws a = w := by
  induction ws generalizing mem with
  | nil => cases hmem
  | cons p ws ih =>
    simp only [List.map_cons, List.nodup_cons] at hdistinct
    rw [storeAll_cons]
    cases hmem with
    | head => rw [storeAll_of_not_mem hdistinct.1, store_self]
    | tail _ hrest => exact ih hdistinct.2 hrest

/-- Where the stores to an address agree on the word, the word is there after them. -/
theorem storeAll_of_forall {mem : α → β} {ws : List (α × β)} {a : α} {w : β}
    (hmem : a ∈ ws.map Prod.fst) (hall : ∀ p ∈ ws, p.1 = a → p.2 = w) : storeAll mem ws a = w := by
  induction ws generalizing mem with
  | nil => cases hmem
  | cons p ws ih =>
    rw [storeAll_cons]
    by_cases hrest : a ∈ ws.map Prod.fst
    · exact ih hrest fun q hq => hall q (List.mem_cons_of_mem p hq)
    · have hhead : a = p.1 := (List.mem_cons.mp hmem).resolve_right hrest
      rw [storeAll_of_not_mem hrest, hhead, store_self]
      exact hall p List.mem_cons_self hhead.symm

/-! Addresses and masks of 32 bits. -/

/-- Words at different indexes from `base` on are at different addresses. -/
theorem slot_inj {base : UInt32} {j t : Nat} (hj : j < 2 ^ 30) (ht : t < 2 ^ 30)
    (heq : base + 4 * UInt32.ofNat j = base + 4 * UInt32.ofNat t) : j = t := by
  have hnat := congrArg UInt32.toNat (UInt32.add_right_inj base |>.mp heq)
  have hfour : (4 : UInt32).toNat = 4 := rfl
  rw [UInt32.toNat_mul, UInt32.toNat_mul, UInt32.toNat_ofNat', UInt32.toNat_ofNat', hfour] at hnat
  omega

theorem or_and (a b c : UInt32) : (a ||| b) &&& c = (a &&& c) ||| (b &&& c) :=
  UInt32.toBitVec_inj.mp BitVec.and_or_distrib_right

end words
