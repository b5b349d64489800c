import Epos.Heap.Init
import Epos.Heap.Users
import Epos.Kmalloc.Aligned

open bytes
open epos.tlsf
open epos.kmalloc

namespace epos.heap

def kmalloc (s : Pool) (bytes : UInt32) : UInt32 × Pool := tlsf_malloc s bytes

def krealloc (s : Pool) (oldptr bytes : UInt32) : UInt32 × Pool := tlsf_realloc s oldptr bytes

def kfree (s : Pool) (ptr : UInt32) : Pool := tlsf_free s ptr

def init_kmalloc (s : Pool) (mem bytes : UInt32) : Pool := (init_memory_pool s bytes mem).2

section Pools

variable {mem : ByteMem} {t fin : Nat} {n bytes align : UInt32} {blocks : List Block}

/-- The requests that a pool answers as an allocator should. -/
def Served (t fin : Nat) (mem : ByteMem) (n : UInt32) : Prop := (∃ blocks, Heap mem t fin blocks) ∧ n.toNat ≤ 0xFC000000

theorem Served.inside (hserved : Served t fin mem n) (hgranted : (malloc_ex mem n (UInt32.ofNat t)).1 ≠ epos.tlsf.NULL) :
    (malloc_ex mem n (UInt32.ofNat t)).1.toNat + n.toNat ≤ 2 ^ 32 := by
  obtain ⟨⟨blocks, hheap⟩, hn⟩ := hserved
  obtain ⟨hnull, -⟩ | ⟨a, z, blocks', hresult, hz, hheap', hused, -⟩ := malloc_used hheap hn
  · exact absurd hnull hgranted
  · have hmem : (⟨a, z, false⟩ : Block) ∈ blocks' := (mem_used.mp ((hused _).mpr (Or.inl rfl))).1
    have hroom := hheap'.bounds hmem
    have hbound := hheap'.bound
    have hle := (request_bounds hn).1
    simp only [Block.stop] at hroom
    rw [hresult, UInt32.toNat_ofNat']
    omega

open Classical in
/-- `kmalloc` on the pool at `t`. -/
noncomputable def pool_kmalloc (t fin : Nat) : Kmalloc where
  call mem n := if Served t fin mem n then malloc_ex mem n (UInt32.ofNat t) else (epos.page.NULL, mem)
  length _ n := n.toNat
  enough _ _ _ := Nat.le_refl _
  inside mem n hgranted := by
    split at hgranted
    · next hserved =>
      rw [if_pos hserved]
      exact hserved.inside hgranted
    · exact absurd rfl hgranted

/-- It is the call of the code. -/
theorem pool_kmalloc_call (hheap : Heap mem t fin blocks) (hn : n.toNat ≤ 0xFC000000) :
    (pool_kmalloc t fin).call mem n = ((kmalloc ⟨mem, UInt32.ofNat t⟩ n).1, (kmalloc ⟨mem, UInt32.ofNat t⟩ n).2.mem) :=
  if_pos ⟨⟨blocks, hheap⟩, hn⟩

/-- The bytes from `ptr` on that a block at `a` has for the user of `aligned_kmalloc`, behind the word with the pointer
to the block. -/
structure Within (mem : ByteMem) (ptr : UInt32) (n a z : Nat) : Prop where
  pointer : load32 mem (ptr - 4) = UInt32.ofNat (a + 8)
  header : a + 12 ≤ ptr.toNat
  inside : ptr.toNat + n ≤ a + 8 + z

/-- The pool stays well formed over an aligned block: while the user has it, whatever is written to it, and
when it is freed again, which leaves the other blocks as they were. -/
theorem aligned_round_trip {e : Nat} (hheap : Heap mem t fin blocks) (halign : align.toNat = 2 ^ e) (hmin : 4 ≤ align)
    (hfits : bytes.toNat + align.toNat + 3 ≤ 0xFC000000)
    (hok : (aligned_kmalloc (pool_kmalloc t fin) mem bytes align).1 ≠ epos.page.NULL) :
    ∃ a z blocks', (aligned_kmalloc (pool_kmalloc t fin) mem bytes align).1.toNat % align.toNat = 0 ∧
      Within (aligned_kmalloc (pool_kmalloc t fin) mem bytes align).2 (aligned_kmalloc (pool_kmalloc t fin) mem bytes align).1
        bytes.toNat a z ∧
      Heap (aligned_kmalloc (pool_kmalloc t fin) mem bytes align).2 t fin blocks' ∧
      (∀ b, b ∈ used blocks' ↔ b = ⟨a, z, false⟩ ∨ b ∈ used blocks) ∧
      ∀ written, Touches (Range (aligned_kmalloc (pool_kmalloc t fin) mem bytes align).1.toNat bytes.toNat)
          (aligned_kmalloc (pool_kmalloc t fin) mem bytes align).2 written →
        Heap written t fin blocks' ∧
        ∃ blocks'', Heap (aligned_kfree (fun mem p => (kfree ⟨mem, UInt32.ofNat t⟩ p).mem) written
            (aligned_kmalloc (pool_kmalloc t fin) mem bytes align).1) t fin blocks'' ∧
          ∀ b, b ∈ used blocks'' ↔ b ∈ used blocks := by
  have husable := usable_of_lt halign hmin (by omega) hok
  have hrequest : (aligned_request bytes align).toNat ≤ 0xFC000000 := by
    rw [aligned_request_toNat hmin]
    omega
  have hgranted : ((pool_kmalloc t fin).call mem (aligned_request bytes align)).1 ≠ epos.page.NULL :=
    fun hrefused => hok (aligned_kmalloc_refused hrefused)
  have hcall := pool_kmalloc_call hheap hrequest
  have hcode := aligned_kmalloc_granted hgranted
  have haligned := husable.aligned
  have hheader := husable.header
  have hinside := husable.inside
  have hfreed := husable.freed
  rw [hcall] at hgranted hheader hinside hfreed hcode
  have hle := (request_bounds hrequest).1
  obtain ⟨hnull, -⟩ | ⟨a, z, blocks', hresult, hz, hheap1, hused, hfresh, -⟩ := malloc_used hheap hrequest
  · exact absurd hnull hgranted
  have hmem : (⟨a, z, false⟩ : Block) ∈ blocks' := (mem_used.mp ((hused _).mpr (Or.inl rfl))).1
  have hroom := hheap1.bounds hmem
  have hbound := hheap1.bound
  simp only [Block.stop] at hroom
  have hblock : (kmalloc ⟨mem, UInt32.ofNat t⟩ (aligned_request bytes align)).1 = UInt32.ofNat (a + 8) := hresult
  have hmem1 : (kmalloc ⟨mem, UInt32.ofNat t⟩ (aligned_request bytes align)).2.mem =
      (malloc_ex mem (aligned_request bytes align) (UInt32.ofNat t)).2 := rfl
  have hnat : (UInt32.ofNat (a + 8)).toNat = a + 8 := by
    rw [UInt32.toNat_ofNat']
    omega
  simp only [hblock, hmem1, hnat] at hheader hinside hfreed hcode
  have hlength : (pool_kmalloc t fin).length mem (aligned_request bytes align) = (aligned_request bytes align).toNat := rfl
  rw [hlength] at hinside
  obtain ⟨ptr, hptr⟩ : ∃ ptr, (UInt32.ofNat (a + 8) + 4 + align - 1) &&& ~~~(align - 1) = ptr := ⟨_, rfl⟩
  rw [hptr] at hcode
  rw [hcode] at haligned hheader hinside hfreed ⊢
  simp only at haligned hheader hinside hfreed ⊢
  have hback : ptr - 4 = UInt32.ofNat (ptr.toNat - 4) := by
    rw [← sub_ofNat (by omega), UInt32.ofNat_toNat]
    rfl
  -- the bytes of the block, the word before the result included, are no business of the pool
  have hguard : ∀ y, a + 8 ≤ y → y < a + 8 + z → Guarded t fin blocks' y := fun y hlo hhi =>
    Or.inr (Or.inr ⟨_, hmem, rfl, hlo, hhi⟩)
  generalize (malloc_ex mem (aligned_request bytes align) (UInt32.ofNat t)).2 = m at hheap1 hfreed ⊢
  have hstored : Touches (Range (ptr.toNat - 4) 4) m (store32 m (ptr - 4) (UInt32.ofNat (a + 8))) := by
    rw [hback]
    exact touches_store32 (by omega) _
  have hheap2 := hheap1.congr (hstored.mono fun y hy => Or.inl (hguard y (by have := hy.1; omega) (by have := hy.2; omega)))
  refine ⟨a, z, blocks', haligned, ⟨load32_store32 .., by omega, by omega⟩, hheap2, hused, fun written hwritten => ?_⟩
  have hheap3 := hheap2.congr (hwritten.mono fun y hy => Or.inl (hguard y (by have := hy.1; omega) (by have := hy.2; omega)))
  refine ⟨hheap3, ?_⟩
  have hkept : ∀ x : UInt32, ¬ (ptr.toNat ≤ x.toNat ∧ x.toNat < ptr.toNat + bytes.toNat) →
      written x = store32 m (ptr - 4) (UInt32.ofNat (a + 8)) x := fun x hx => by
    have hbyte := hwritten x.toNat x.toNat_lt hx
    rwa [byte_ofNat_toNat, byte_ofNat_toNat] at hbyte
  obtain ⟨blocks'', hheap4, hused', -⟩ := free_used hheap3 hmem
  have hfree := hfreed written hkept fun mem p => (kfree ⟨mem, UInt32.ofNat t⟩ p).mem
  rw [hfree]
  refine ⟨blocks'', hheap4, fun b => ?_⟩
  rw [hused', hused]
  constructor
  · rintro ⟨rfl | hb, hne⟩
    · exact absurd rfl hne
    · exact hb
  · exact fun hb => ⟨Or.inr hb, hfresh b hb⟩

theorem cleared_aligned : (aligned_kmalloc (pool_kmalloc 0x100000 (pool_end 0x100000 0x10000))
    (new_pool cleared 0x100000 0x10000).mem 100 64).1 = 0x100CC0 := by
  have hrequest : (aligned_request 100 64).toNat ≤ 0xFC000000 := by decide
  have hfit : fit (request (aligned_request 100 64)).toNat ≤ (0x10000 - 3180) / 8 * 8 - 32 := by decide
  have hcall := congrArg Prod.fst (pool_kmalloc_call cleared_region.heap hrequest)
  simp only [kmalloc, tlsf_malloc] at hcall
  rw [malloc_ex_one_block cleared_region.heap hrequest, if_pos hfit] at hcall
  have hgranted : UInt32.ofNat (0x100000 + 3200 + 8) ≠ epos.page.NULL := by decide
  rw [aligned_kmalloc_granted (by rw [hcall]; exact hgranted), hcall]
  decide

theorem aligned_round_trip_cleared : ∃ a z blocks', Heap (aligned_kmalloc (pool_kmalloc 0x100000 (pool_end 0x100000 0x10000))
      (new_pool cleared 0x100000 0x10000).mem 100 64).2 0x100000 (pool_end 0x100000 0x10000) blocks' ∧
    ∀ b, b ∈ used blocks' ↔ b = ⟨a, z, false⟩ ∨ b ∈ used [⟨0x100000 + 3200, (0x10000 - 3180) / 8 * 8 - 32, true⟩] := by
  have hsix : (64 : UInt32).toNat = 2 ^ 6 := rfl
  have hfits : (100 : UInt32).toNat + (64 : UInt32).toNat + 3 ≤ 0xFC000000 := by decide
  have hok : (0x100CC0 : UInt32) ≠ epos.page.NULL := by decide
  obtain ⟨a, z, blocks', -, -, hheap, hused, -⟩ := aligned_round_trip cleared_region.heap hsix (by decide) hfits
    (cleared_aligned ▸ hok)
  exact ⟨a, z, blocks', hheap, hused⟩

end Pools

end epos.heap
