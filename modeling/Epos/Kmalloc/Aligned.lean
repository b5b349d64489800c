import Epos.Lib.ByteMem
import Epos.Page.Vmspace

open bytes
open epos.page

namespace epos.kmalloc

/-- An allocator: what `kmalloc` returns for a request, how long the block is, and what
memory is then. A request is refused, or gets a block that is long enough and does not
wrap around the address space. -/
structure Kmalloc where
  call : ByteMem → UInt32 → UInt32 × ByteMem
  length : ByteMem → UInt32 → Nat
  enough : ∀ mem n, (call mem n).1 ≠ NULL → n.toNat ≤ length mem n
  inside : ∀ mem n, (call mem n).1 ≠ NULL → (call mem n).1.toNat + length mem n ≤ 2 ^ 32

/-- What `aligned_kmalloc` asks `kmalloc` for. -/
def aligned_request (bytes align : UInt32) : UInt32 := bytes + align - 1 + 4

def aligned_kmalloc (k : Kmalloc) (memory : ByteMem) (bytes align : UInt32) : UInt32 × ByteMem :=
  let (mem, memory) := k.call memory (aligned_request bytes align)
  if mem = NULL then (mem, memory)
  else
    let ptr := (mem + 4 + align - 1) &&& ~~~(align - 1)
    (ptr, store32 memory (ptr - 4) mem)

def aligned_kfree {α : Type} (kfree : ByteMem → UInt32 → α) (memory : ByteMem) (ptr : UInt32) : α :=
  kfree memory (load32 memory (ptr - 4))

/-- The result is a multiple of `align`, the word before it and the bytes asked for are in
the block of `kmalloc`, and whatever is written to these bytes, `aligned_kfree` frees the
block. -/
structure Usable (k : Kmalloc) (memory : ByteMem) (bytes align : UInt32) : Prop where
  aligned : (aligned_kmalloc k memory bytes align).1.toNat % align.toNat = 0
  header : (k.call memory (aligned_request bytes align)).1.toNat + 4 ≤
    (aligned_kmalloc k memory bytes align).1.toNat
  inside : (aligned_kmalloc k memory bytes align).1.toNat + bytes.toNat ≤
    (k.call memory (aligned_request bytes align)).1.toNat + k.length memory (aligned_request bytes align)
  freed : ∀ written : ByteMem,
    (∀ a, ¬ ((aligned_kmalloc k memory bytes align).1.toNat ≤ a.toNat ∧
        a.toNat < (aligned_kmalloc k memory bytes align).1.toNat + bytes.toNat) →
      written a = (aligned_kmalloc k memory bytes align).2 a) →
    ∀ {α : Type} (kfree : ByteMem → UInt32 → α),
      aligned_kfree kfree written (aligned_kmalloc k memory bytes align).1 =
        kfree written (k.call memory (aligned_request bytes align)).1

section Requests

variable {k : Kmalloc} {memory : ByteMem} {bytes align : UInt32}

/-- A block that `kmalloc` grants is rounded up behind its header. -/
theorem aligned_kmalloc_granted (hgranted : (k.call memory (aligned_request bytes align)).1 ≠ NULL) :
    aligned_kmalloc k memory bytes align =
      (((k.call memory (aligned_request bytes align)).1 + 4 + align - 1) &&& ~~~(align - 1),
        store32 (k.call memory (aligned_request bytes align)).2
          ((((k.call memory (aligned_request bytes align)).1 + 4 + align - 1) &&& ~~~(align - 1)) - 4)
          (k.call memory (aligned_request bytes align)).1) :=
  if_neg hgranted

theorem aligned_kmalloc_refused (hrefused : (k.call memory (aligned_request bytes align)).1 = NULL) :
    (aligned_kmalloc k memory bytes align).1 = NULL := by
  have hcall : aligned_kmalloc k memory bytes align = k.call memory (aligned_request bytes align) :=
    if_pos hrefused
  rw [hcall, hrefused]

theorem aligned_request_toNat (hmin : 4 ≤ align) :
    (aligned_request bytes align).toNat = (bytes.toNat + align.toNat + 3) % 2 ^ 32 := by
  have hle := UInt32.le_iff_toNat_le.mp hmin
  have hlt := bytes.toNat_lt
  have hlt' := align.toNat_lt
  have hfour : (4 : UInt32).toNat = 4 := rfl
  rw [aligned_request, UInt32.toNat_add, UInt32.toNat_sub, UInt32.toNat_add, UInt32.toNat_one, hfour]
  omega

/-- The mask of a power of two rounds down to a multiple of it. -/
theorem round_down {e : Nat} (halign : align.toNat = 2 ^ e) (x : UInt32) :
    (x &&& ~~~(align - 1)).toNat = x.toNat / align.toNat * align.toNat := by
  have hlt := align.toNat_lt
  have hexp : e ≤ 32 := by
    by_contra hgt
    have hpow : 2 ^ 32 ≤ 2 ^ e := Nat.pow_le_pow_right (by decide) (by omega)
    omega
  have hpos : 0 < 2 ^ e := Nat.two_pow_pos e
  have hone : (1 : UInt32) ≤ align := by
    rw [UInt32.le_iff_toNat_le, halign]
    exact hpos
  have hmask : (~~~(align - 1)).toNat = 2 ^ 32 - 2 ^ e := by
    have hsub := UInt32.toNat_sub_of_le _ _ hone
    have hsize : UInt32.size = 2 ^ 32 := rfl
    rw [UInt32.toNat_not, hsub, halign, UInt32.toNat_one]
    omega
  rw [UInt32.toNat_and, hmask, halign]
  exact and_high_bits x.toNat_lt hexp

theorem round_start (hmin : 4 ≤ align) (mem : UInt32) :
    (mem + 4 + align - 1).toNat = (mem.toNat + align.toNat + 3) % 2 ^ 32 := by
  have hle := UInt32.le_iff_toNat_le.mp hmin
  have hlt := mem.toNat_lt
  have hlt' := align.toNat_lt
  have hfour : (4 : UInt32).toNat = 4 := rfl
  rw [UInt32.toNat_sub, UInt32.toNat_add, UInt32.toNat_add, UInt32.toNat_one, hfour]
  omega

/-- Without a wrap the result is behind the header, at most `align - 1` bytes on. -/
theorem round_bounds {e : Nat} (halign : align.toNat = 2 ^ e) (hmin : 4 ≤ align) {mem : UInt32}
    (hsum : mem.toNat + align.toNat + 3 < 2 ^ 32) :
    mem.toNat + 4 ≤ ((mem + 4 + align - 1) &&& ~~~(align - 1)).toNat ∧
      ((mem + 4 + align - 1) &&& ~~~(align - 1)).toNat ≤ mem.toNat + align.toNat + 3 := by
  have hstart := round_start hmin mem
  rw [Nat.mod_eq_of_lt hsum] at hstart
  rw [round_down halign, hstart]
  have hpos : 0 < align.toNat := halign ▸ Nat.two_pow_pos e
  have hlow := Nat.div_mul_le_self (mem.toNat + align.toNat + 3) align.toNat
  have hhigh := Nat.lt_div_mul_add (a := mem.toNat + align.toNat + 3) hpos
  omega

end Requests

section Blocks

variable {k : Kmalloc} {memory : ByteMem} {bytes align : UInt32}

/-- The bytes of the user are behind the header. -/
theorem header_kept {memory written : ByteMem} {ptr block : UInt32} (hptr : 4 ≤ ptr.toNat)
    (hkept : ∀ a : UInt32, a.toNat < ptr.toNat → written a = store32 memory (ptr - 4) block a) :
    load32 written (ptr - 4) = block := by
  have hfour : (4 : UInt32).toNat = 4 := rfl
  rw [← load32_store32 memory (ptr - 4) block]
  apply load32_congr
  intro i hi
  have hlt := UInt32.lt_iff_toNat_lt.mp hi
  have hptr' := ptr.toNat_lt
  apply hkept
  rw [UInt32.toNat_add, UInt32.toNat_sub, hfour]
  omega

/-- If the request does not wrap, a result that is not NULL is usable. -/
theorem usable_of_lt {e : Nat} (halign : align.toNat = 2 ^ e) (hmin : 4 ≤ align)
    (hfits : bytes.toNat + align.toNat + 3 < 2 ^ 32)
    (hok : (aligned_kmalloc k memory bytes align).1 ≠ NULL) : Usable k memory bytes align := by
  by_cases hgranted : (k.call memory (aligned_request bytes align)).1 = NULL
  · exact absurd (aligned_kmalloc_refused hgranted) hok
  have hresult := aligned_kmalloc_granted hgranted
  have henough := k.enough memory _ hgranted
  have hinside := k.inside memory _ hgranted
  rw [aligned_request_toNat hmin, Nat.mod_eq_of_lt hfits] at henough
  generalize hblock : (k.call memory (aligned_request bytes align)).1 = block at hresult hinside
  generalize hrounded : (block + 4 + align - 1) &&& ~~~(align - 1) = ptr at hresult
  have hne : ptr.toNat ≠ 0 := by
    rw [hresult] at hok
    exact fun hzero => hok (UInt32.toNat_inj.mp hzero)
  have hptr := round_down halign (block + 4 + align - 1)
  rw [hrounded] at hptr
  -- the sum for the rounding wraps at most to zero, and then the result is NULL
  have hsum : block.toNat + align.toNat + 3 < 2 ^ 32 := by
    by_contra hwraps
    have hzero : (block.toNat + align.toNat + 3) % 2 ^ 32 = 0 := by omega
    rw [round_start hmin, hzero, Nat.zero_div, Nat.zero_mul] at hptr
    exact hne hptr
  have hbounds := round_bounds halign hmin hsum
  rw [hrounded] at hbounds
  have hfirst : (aligned_kmalloc k memory bytes align).1 = ptr := congrArg Prod.fst hresult
  have hmemory : (aligned_kmalloc k memory bytes align).2 =
      store32 (k.call memory (aligned_request bytes align)).2 (ptr - 4) block := congrArg Prod.snd hresult
  refine ⟨?_, ?_, ?_, fun written hkept α kfree => ?_⟩
  · rw [hfirst, hptr]
    exact Nat.mul_mod_left _ _
  · rw [hfirst, hblock]
    omega
  · rw [hfirst, hblock]
    omega
  · rw [hfirst, hmemory] at hkept
    have hheader : load32 written (ptr - 4) = block :=
      header_kept (by omega) fun a ha => hkept a fun h => absurd h.1 (Nat.not_le.mpr ha)
    rw [hfirst, hblock, aligned_kfree, hheader]

theorem le_of_one_block {n size base : UInt32} (h : (if n ≤ size then base else NULL) ≠ NULL) :
    n ≤ size := by
  by_contra hlong
  exact h (if_neg hlong)

/-- The allocator with one block, of `size` bytes at `base`, for all requests that fit. -/
def one_block (base size : UInt32) (hsize : base.toNat + size.toNat ≤ 2 ^ 32) : Kmalloc where
  call memory n := (if n ≤ size then base else NULL, memory)
  length _ _ := size.toNat
  enough memory n hgranted := UInt32.le_iff_toNat_le.mp (le_of_one_block hgranted)
  inside memory n hgranted := by
    simp only [if_pos (le_of_one_block hgranted)]
    exact hsize

/-- If it wraps, the bytes asked for do not fit into a block that is as long as requested. -/
theorem not_usable_of_ge (hmin : 4 ≤ align) (hwraps : 2 ^ 32 ≤ bytes.toNat + align.toNat + 3)
    (hlength : k.length memory (aligned_request bytes align) = (aligned_request bytes align).toNat) :
    ¬ Usable k memory bytes align := by
  intro husable
  have hheader := husable.header
  have hinside := husable.inside
  have hlt := bytes.toNat_lt
  have hlt' := align.toNat_lt
  rw [hlength, aligned_request_toNat hmin] at hinside
  omega

end Blocks

/-- `aligned_kmalloc` returns usable memory, whatever blocks `kmalloc` has, just when its
request does not wrap. -/
theorem aligned_kmalloc_usable_iff (bytes align : UInt32) (hpow : ∃ e, align.toNat = 2 ^ e)
    (hmin : 4 ≤ align) :
    (∀ k memory, (aligned_kmalloc k memory bytes align).1 ≠ NULL → Usable k memory bytes align) ↔
      bytes.toNat + align.toNat + 3 < 2 ^ 32 := by
  obtain ⟨e, halign⟩ := hpow
  constructor
  · intro husable
    by_contra hwraps
    have hlarge : align.toNat ≤ 2 ^ 31 := by
      have hlt := align.toNat_lt
      have hexp : e < 32 := (Nat.pow_lt_pow_iff_right (by decide)).mp (halign ▸ hlt)
      rw [halign]
      exact Nat.pow_le_pow_right (by decide) (by omega)
    have hbase : (0x40000000 : UInt32).toNat = 2 ^ 30 := rfl
    have hsize : (0x40000000 : UInt32).toNat + (aligned_request bytes align).toNat ≤ 2 ^ 32 := by
      have hlt := bytes.toNat_lt
      rw [aligned_request_toNat hmin, hbase]
      omega
    let k := one_block 0x40000000 (aligned_request bytes align) hsize
    have hblock : (k.call (fun _ => 0) (aligned_request bytes align)).1 = 0x40000000 :=
      if_pos (UInt32.le_refl _)
    have hgranted : (k.call (fun _ => 0) (aligned_request bytes align)).1 ≠ NULL := by
      rw [hblock]
      exact fun h => absurd (congrArg UInt32.toNat h) (by decide)
    have hok : (aligned_kmalloc k (fun _ => 0) bytes align).1 ≠ NULL := by
      rw [aligned_kmalloc_granted hgranted, hblock]
      have hsum : (0x40000000 : UInt32).toNat + align.toNat + 3 < 2 ^ 32 := by
        rw [hbase]
        omega
      have hbounds := (round_bounds halign hmin hsum).1
      intro hnull
      have hrounded : (0x40000000 + 4 + align - 1) &&& ~~~(align - 1) = NULL := hnull
      have hzero : NULL.toNat = 0 := rfl
      rw [hrounded, hzero] at hbounds
      omega
    exact not_usable_of_ge hmin (by omega) rfl (husable k (fun _ => 0) hok)
  · intro hfits k memory hok
    exact usable_of_lt halign hmin hfits hok

theorem aligned_kmalloc_usable_page :
    (∀ k memory, (aligned_kmalloc k memory 100 4096).1 ≠ NULL → Usable k memory 100 4096) ↔
      (100 : UInt32).toNat + (4096 : UInt32).toNat + 3 < 2 ^ 32 :=
  aligned_kmalloc_usable_iff 100 4096 ⟨12, rfl⟩ (by decide)

/-- A heap whose one block has 12 bytes, the least that `tlsf_malloc` returns. -/
def small_heap : Kmalloc := one_block 0xC0060000 12 (by decide)

/-- A request for almost 4 GiB wraps to one for three bytes, and is granted. -/
theorem tiny_block_granted :
    (aligned_kmalloc small_heap (fun _ => 0) 0xFFFFFFFC 4).1 = 0xC0060004 ∧
      ¬ Usable small_heap (fun _ => 0) 0xFFFFFFFC 4 := by
  have hresult : (aligned_kmalloc small_heap (fun _ => 0) 0xFFFFFFFC 4).1 = 0xC0060004 := by decide
  refine ⟨hresult, fun husable => ?_⟩
  have hinside := husable.inside
  rw [hresult] at hinside
  exact absurd hinside (by decide)

end epos.kmalloc
