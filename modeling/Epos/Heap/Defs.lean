import Epos.Memory.Fill

open bytes
open epos.memory

namespace epos.tlsf

def NULL : UInt32 := 0

def BLOCK_ALIGN : UInt32 := 8
def MAX_LOG2_SLI : UInt32 := 5
def MAX_SLI : UInt32 := (1 : UInt32) <<< MAX_LOG2_SLI
def FLI_OFFSET : UInt32 := 6
def SMALL_BLOCK : UInt32 := 128
def REAL_FLI : UInt32 := 30 - FLI_OFFSET
def MIN_BLOCK_SIZE : UInt32 := 8
/-- `sizeof(bhdr_t)` -/
def sizeof_bhdr_t : UInt32 := 16
def BHDR_OVERHEAD : UInt32 := sizeof_bhdr_t - MIN_BLOCK_SIZE
def TLSF_SIGNATURE : UInt32 := 0x2A59FA59
def PTR_MASK : UInt32 := 3
def BLOCK_SIZE : UInt32 := 0xFFFFFFFF - PTR_MASK
def MEM_ALIGN : UInt32 := BLOCK_ALIGN - 1
def ROUNDUP_SIZE (r : UInt32) : UInt32 := (r + MEM_ALIGN) &&& ~~~MEM_ALIGN
def ROUNDDOWN_SIZE (r : UInt32) : UInt32 := r &&& ~~~MEM_ALIGN
def PREV_STATE : UInt32 := 2
def FREE_BLOCK : UInt32 := 1
def USED_BLOCK : UInt32 := 0
def PREV_FREE : UInt32 := 2
def PREV_USED : UInt32 := 0

/-! `bhdr_t`: the two words of the header, and the two of `free_ptr` where the buffer starts. -/

def prev_hdr (mem : ByteMem) (b : UInt32) : UInt32 := load32 mem b
def block_size (mem : ByteMem) (b : UInt32) : UInt32 := load32 mem (b + 4)
def buffer (b : UInt32) : UInt32 := b + 8
def free_prev (mem : ByteMem) (b : UInt32) : UInt32 := load32 mem (b + 8)
def free_next (mem : ByteMem) (b : UInt32) : UInt32 := load32 mem (b + 12)

def set_prev_hdr (mem : ByteMem) (b p : UInt32) : ByteMem := store32 mem b p
def set_size (mem : ByteMem) (b r : UInt32) : ByteMem := store32 mem (b + 4) r
def set_free_prev (mem : ByteMem) (b p : UInt32) : ByteMem := store32 mem (b + 8) p
def set_free_next (mem : ByteMem) (b p : UInt32) : ByteMem := store32 mem (b + 12) p

def GET_NEXT_BLOCK (addr r : UInt32) : UInt32 := addr + r

/-! `tlsf_t`: the signature, `area_head`, `fl_bitmap`, 24 words of `sl_bitmap` and 24 rows of 32
pointers. -/

def area_head_at (tlsf : UInt32) : UInt32 := tlsf + 4
def fl_bitmap_at (tlsf : UInt32) : UInt32 := tlsf + 8
def sl_bitmap_at (tlsf fl : UInt32) : UInt32 := tlsf + 12 + 4 * fl
def matrix_at (tlsf fl sl : UInt32) : UInt32 := tlsf + 108 + 4 * (32 * fl + sl)
/-- `sizeof(tlsf_t)` -/
def sizeof_tlsf_t : UInt32 := 3180

def fl_bitmap (mem : ByteMem) (tlsf : UInt32) : UInt32 := load32 mem (fl_bitmap_at tlsf)
def sl_bitmap (mem : ByteMem) (tlsf fl : UInt32) : UInt32 := load32 mem (sl_bitmap_at tlsf fl)
def matrix (mem : ByteMem) (tlsf fl sl : UInt32) : UInt32 := load32 mem (matrix_at tlsf fl sl)
def set_matrix (mem : ByteMem) (tlsf fl sl b : UInt32) : ByteMem := store32 mem (matrix_at tlsf fl sl) b

/-- The position of the highest bit of a byte. -/
def table : List UInt32 :=
  [-1, 0] ++ List.replicate 2 1 ++ List.replicate 4 2 ++ List.replicate 8 3 ++ List.replicate 16 4 ++
    List.replicate 32 5 ++ List.replicate 64 6 ++ List.replicate 128 7

def table_shift (x : UInt32) : UInt32 :=
  if x ≤ 0xffff then if x ≤ 0xff then 0 else 8 else if x ≤ 0xffffff then 16 else 24

def ls_bit (i : UInt32) : UInt32 :=
  let x := i &&& -i
  let a := table_shift x
  table.getD (x >>> a).toNat 0 + a

def ms_bit (i : UInt32) : UInt32 :=
  let x := i
  let a := table_shift x
  table.getD (x >>> a).toNat 0 + a

def set_bit (mem : ByteMem) (nr addr : UInt32) : ByteMem :=
  let word : UInt32 := nr >>> 5
  store32 mem (addr + 4 * word) (load32 mem (addr + 4 * word) ||| ((1 : UInt32) <<< (nr &&& 0x1f)))

def clear_bit (mem : ByteMem) (nr addr : UInt32) : ByteMem :=
  let word : UInt32 := nr >>> 5
  store32 mem (addr + 4 * word) (load32 mem (addr + 4 * word) &&& ~~~((1 : UInt32) <<< (nr &&& 0x1f)))

/-- What `MAPPING_SEARCH` makes of the size, and the two indices. -/
def MAPPING_SEARCH (r : UInt32) : UInt32 × UInt32 × UInt32 :=
  if r < SMALL_BLOCK then (r, 0, r / (SMALL_BLOCK / MAX_SLI))
  else
    let t := ((1 : UInt32) <<< (ms_bit r - MAX_LOG2_SLI)) - 1
    let r := r + t
    let fl := ms_bit r
    let sl := (r >>> (fl - MAX_LOG2_SLI)) - MAX_SLI
    (r &&& ~~~t, fl - FLI_OFFSET, sl)

def MAPPING_INSERT (r : UInt32) : UInt32 × UInt32 :=
  if r < SMALL_BLOCK then (0, r / (SMALL_BLOCK / MAX_SLI))
  else
    let fl := ms_bit r
    let sl := (r >>> (fl - MAX_LOG2_SLI)) - MAX_SLI
    (fl - FLI_OFFSET, sl)

/-- The block, and the indices at which it was found. -/
def FIND_SUITABLE_BLOCK (mem : ByteMem) (tlsf fl sl : UInt32) : UInt32 × UInt32 × UInt32 :=
  let tmp := sl_bitmap mem tlsf fl &&& (~~~0 <<< sl)
  if tmp ≠ 0 then
    let sl := ls_bit tmp
    (matrix mem tlsf fl sl, fl, sl)
  else
    let fl := ls_bit (fl_bitmap mem tlsf &&& (~~~0 <<< (fl + 1)))
    -- `*_fl` is an int: there is none if it is -1
    if fl.toInt32 > 0 then
      let sl := ls_bit (sl_bitmap mem tlsf fl)
      (matrix mem tlsf fl sl, fl, sl)
    else (NULL, fl, sl)

/-- The bits of a list that has become empty. -/
def clear_bits (mem : ByteMem) (tlsf fl sl : UInt32) : ByteMem :=
  let mem := clear_bit mem sl (sl_bitmap_at tlsf fl)
  if sl_bitmap mem tlsf fl = 0 then clear_bit mem fl (fl_bitmap_at tlsf) else mem

def EXTRACT_BLOCK_HDR (mem : ByteMem) (b tlsf fl sl : UInt32) : ByteMem :=
  let mem := set_matrix mem tlsf fl sl (free_next mem b)
  let mem :=
    if matrix mem tlsf fl sl ≠ 0 then set_free_prev mem (matrix mem tlsf fl sl) NULL
    else clear_bits mem tlsf fl sl
  let mem := set_free_prev mem b NULL
  set_free_next mem b NULL

def EXTRACT_BLOCK (mem : ByteMem) (b tlsf fl sl : UInt32) : ByteMem :=
  let mem := if free_next mem b ≠ 0 then set_free_prev mem (free_next mem b) (free_prev mem b) else mem
  let mem := if free_prev mem b ≠ 0 then set_free_next mem (free_prev mem b) (free_next mem b) else mem
  let mem :=
    if matrix mem tlsf fl sl = b then
      let mem := set_matrix mem tlsf fl sl (free_next mem b)
      if matrix mem tlsf fl sl = 0 then clear_bits mem tlsf fl sl else mem
    else mem
  let mem := set_free_prev mem b NULL
  set_free_next mem b NULL

def INSERT_BLOCK (mem : ByteMem) (b tlsf fl sl : UInt32) : ByteMem :=
  let mem := set_free_prev mem b NULL
  let mem := set_free_next mem b (matrix mem tlsf fl sl)
  let mem :=
    if matrix mem tlsf fl sl ≠ 0 then set_free_prev mem (matrix mem tlsf fl sl) b else mem
  let mem := set_matrix mem tlsf fl sl b
  let mem := set_bit mem sl (sl_bitmap_at tlsf fl)
  set_bit mem fl (fl_bitmap_at tlsf)

/-- `EXTRACT_BLOCK` at the indices of the block's own size. -/
def extract (mem : ByteMem) (b tlsf : UInt32) : ByteMem :=
  let (fl, sl) := MAPPING_INSERT (block_size mem b &&& BLOCK_SIZE)
  EXTRACT_BLOCK mem b tlsf fl sl

/-- `INSERT_BLOCK` at the indices of `r`. -/
def insert (mem : ByteMem) (b r tlsf : UInt32) : ByteMem :=
  let (fl, sl) := MAPPING_INSERT r
  INSERT_BLOCK mem b tlsf fl sl

/-- The size that a request is rounded up to. -/
def request (size : UInt32) : UInt32 := if size < MIN_BLOCK_SIZE then MIN_BLOCK_SIZE else ROUNDUP_SIZE size

/-- `malloc_ex` from `found` on: the block is split, unless too little would be left. -/
def found (mem : ByteMem) (b size tlsf : UInt32) : ByteMem :=
  let next_b := GET_NEXT_BLOCK (buffer b) (block_size mem b &&& BLOCK_SIZE)
  let tmp_size := (block_size mem b &&& BLOCK_SIZE) - size
  if tmp_size ≥ sizeof_bhdr_t then
    let tmp_size := tmp_size - BHDR_OVERHEAD
    let b2 := GET_NEXT_BLOCK (buffer b) size
    let mem := set_size mem b2 (tmp_size ||| FREE_BLOCK ||| PREV_USED)
    let mem := set_prev_hdr mem next_b b2
    let mem := insert mem b2 tmp_size tlsf
    set_size mem b (size ||| (block_size mem b &&& PREV_STATE))
  else
    let mem := set_size mem next_b (block_size mem next_b &&& ~~~PREV_FREE)
    set_size mem b (block_size mem b &&& ~~~FREE_BLOCK)

def malloc_ex (mem : ByteMem) (size tlsf : UInt32) : UInt32 × ByteMem :=
  let (size, fl, sl) := MAPPING_SEARCH (request size)
  let (b, fl, sl) := FIND_SUITABLE_BLOCK mem tlsf fl sl
  if b = NULL then (NULL, mem)
  else
    let mem := EXTRACT_BLOCK_HDR mem b tlsf fl sl
    (buffer b, found mem b size tlsf)

/-- `free_ex` takes in the block behind, if it is free. -/
def merge_next (mem : ByteMem) (b tlsf : UInt32) : ByteMem :=
  let tmp_b := GET_NEXT_BLOCK (buffer b) (block_size mem b &&& BLOCK_SIZE)
  if block_size mem tmp_b &&& FREE_BLOCK ≠ 0 then
    let mem := extract mem tmp_b tlsf
    set_size mem b (block_size mem b + ((block_size mem tmp_b &&& BLOCK_SIZE) + BHDR_OVERHEAD))
  else mem

/-- `free_ex` goes on with the block before, if it is free. -/
def merge_prev (mem : ByteMem) (b tlsf : UInt32) : UInt32 × ByteMem :=
  if block_size mem b &&& PREV_FREE ≠ 0 then
    let tmp_b := prev_hdr mem b
    let mem := extract mem tmp_b tlsf
    (tmp_b, set_size mem tmp_b (block_size mem tmp_b + ((block_size mem b &&& BLOCK_SIZE) + BHDR_OVERHEAD)))
  else (b, mem)

def free_ex (mem : ByteMem) (ptr tlsf : UInt32) : ByteMem :=
  if ptr = NULL then mem
  else
    let b := ptr - BHDR_OVERHEAD
    let mem := set_size mem b (block_size mem b ||| FREE_BLOCK)
    let mem := set_free_prev mem b NULL
    let mem := set_free_next mem b NULL
    let mem := merge_next mem b tlsf
    let (b, mem) := merge_prev mem b tlsf
    let mem := insert mem b (block_size mem b &&& BLOCK_SIZE) tlsf
    let tmp_b := GET_NEXT_BLOCK (buffer b) (block_size mem b &&& BLOCK_SIZE)
    let mem := set_size mem tmp_b (block_size mem tmp_b ||| PREV_FREE)
    set_prev_hdr mem tmp_b b

/-- `realloc_ex` cuts off what is left of a block behind `new_size` bytes, if that is enough
for a block of its own. -/
def split (mem : ByteMem) (b next_b new_size tmp_size tlsf : UInt32) : ByteMem :=
  if tmp_size ≥ sizeof_bhdr_t then
    let tmp_size := tmp_size - BHDR_OVERHEAD
    let tmp_b := GET_NEXT_BLOCK (buffer b) new_size
    let mem := set_size mem tmp_b (tmp_size ||| FREE_BLOCK ||| PREV_USED)
    let mem := set_prev_hdr mem next_b tmp_b
    let mem := set_size mem next_b (block_size mem next_b ||| PREV_FREE)
    let mem := insert mem tmp_b tmp_size tlsf
    set_size mem b (new_size ||| (block_size mem b &&& PREV_STATE))
  else mem

/-- `realloc_ex` for a block that is long enough. -/
def realloc_shrink (mem : ByteMem) (b next_b new_size tlsf : UInt32) : ByteMem :=
  let tmp_size := block_size mem b &&& BLOCK_SIZE
  if block_size mem next_b &&& FREE_BLOCK ≠ 0 then
    let mem := extract mem next_b tlsf
    let tmp_size := tmp_size + ((block_size mem next_b &&& BLOCK_SIZE) + BHDR_OVERHEAD)
    let next_b := GET_NEXT_BLOCK (buffer next_b) (block_size mem next_b &&& BLOCK_SIZE)
    split mem b next_b new_size (tmp_size - new_size) tlsf
  else split mem b next_b new_size (tmp_size - new_size) tlsf

/-- `realloc_ex` for a block that takes in the free block behind it. -/
def realloc_grow (mem : ByteMem) (b next_b new_size tlsf : UInt32) : ByteMem :=
  let mem := extract mem next_b tlsf
  let mem := set_size mem b (block_size mem b + ((block_size mem next_b &&& BLOCK_SIZE) + BHDR_OVERHEAD))
  let next_b := GET_NEXT_BLOCK (buffer b) (block_size mem b &&& BLOCK_SIZE)
  let mem := set_prev_hdr mem next_b b
  let mem := set_size mem next_b (block_size mem next_b &&& ~~~PREV_FREE)
  split mem b next_b new_size ((block_size mem b &&& BLOCK_SIZE) - new_size) tlsf

/-- `realloc_ex` for a block that has to move. -/
def realloc_move (mem : ByteMem) (ptr b new_size tlsf : UInt32) : UInt32 × ByteMem :=
  let (ptr_aux, mem) := malloc_ex mem new_size tlsf
  if ptr_aux = NULL then (NULL, mem)
  else
    let cpsize := if block_size mem b &&& BLOCK_SIZE > new_size then new_size else block_size mem b &&& BLOCK_SIZE
    let mem := (memcpy mem ptr_aux ptr cpsize).2
    let mem := free_ex mem ptr tlsf
    (ptr_aux, mem)

def realloc_ex (mem : ByteMem) (ptr new_size tlsf : UInt32) : UInt32 × ByteMem :=
  if ptr = NULL then
    if new_size ≠ 0 then malloc_ex mem new_size tlsf else (NULL, mem)
  else if new_size = 0 then (NULL, free_ex mem ptr tlsf)
  else
    let b := ptr - BHDR_OVERHEAD
    let next_b := GET_NEXT_BLOCK (buffer b) (block_size mem b &&& BLOCK_SIZE)
    let new_size := request new_size
    let tmp_size := block_size mem b &&& BLOCK_SIZE
    if new_size ≤ tmp_size then (buffer b, realloc_shrink mem b next_b new_size tlsf)
    else if block_size mem next_b &&& FREE_BLOCK ≠ 0 ∧
        new_size ≤ tmp_size + (block_size mem next_b &&& BLOCK_SIZE) then
      (buffer b, realloc_grow mem b next_b new_size tlsf)
    else realloc_move mem ptr b new_size tlsf

def calloc_ex (mem : ByteMem) (nelem elem_size tlsf : UInt32) : UInt32 × ByteMem :=
  if nelem = 0 ∨ elem_size = 0 then (NULL, mem)
  else
    let (ptr, mem) := malloc_ex mem (nelem * elem_size) tlsf
    if ptr = NULL then (NULL, mem)
    else (ptr, (memset mem ptr 0 (nelem * elem_size)).2)

/-- `sizeof(area_info_t)`: `end` and `next`. -/
def sizeof_area_info_t : UInt32 := 8

/-- The block with the `area_info_t`, which starts the area. -/
def process_area (mem : ByteMem) (area size : UInt32) : UInt32 × ByteMem :=
  let ib := area
  let mem := set_size mem ib
    (if sizeof_area_info_t < MIN_BLOCK_SIZE then MIN_BLOCK_SIZE
    else ROUNDUP_SIZE sizeof_area_info_t ||| USED_BLOCK ||| PREV_USED)
  let b := GET_NEXT_BLOCK (buffer ib) (block_size mem ib &&& BLOCK_SIZE)
  let mem := set_size mem b
    (ROUNDDOWN_SIZE (size - 3 * BHDR_OVERHEAD - (block_size mem ib &&& BLOCK_SIZE)) ||| USED_BLOCK ||| PREV_USED)
  let mem := set_free_next mem b 0
  let mem := set_free_prev mem b 0
  let lb := GET_NEXT_BLOCK (buffer b) (block_size mem b &&& BLOCK_SIZE)
  let mem := set_prev_hdr mem lb b
  let mem := set_size mem lb (0 ||| USED_BLOCK ||| PREV_FREE)
  let ai := buffer ib
  let mem := store32 mem (ai + 4) 0
  let mem := store32 mem ai lb
  (ib, mem)

/-- The memory, and the static `mp`. -/
structure Pool where
  mem : ByteMem
  mp : UInt32

def init_memory_pool (s : Pool) (mem_pool_size mem_pool : UInt32) : UInt32 × Pool :=
  if mem_pool = NULL ∨ mem_pool_size = 0 ∨ mem_pool_size < sizeof_tlsf_t + BHDR_OVERHEAD * 8 then (-1, s)
  else if mem_pool &&& PTR_MASK ≠ 0 then (-1, s)
  else if load32 s.mem mem_pool = TLSF_SIGNATURE then
    let b := GET_NEXT_BLOCK mem_pool (ROUNDUP_SIZE sizeof_tlsf_t)
    (block_size s.mem b &&& BLOCK_SIZE, { s with mp := mem_pool })
  else
    let mem := (memset s.mem mem_pool 0 sizeof_tlsf_t).2
    let mem := store32 mem mem_pool TLSF_SIGNATURE
    let (ib, mem) := process_area mem (GET_NEXT_BLOCK mem_pool (ROUNDUP_SIZE sizeof_tlsf_t))
      (ROUNDDOWN_SIZE (mem_pool_size - sizeof_tlsf_t))
    let b := GET_NEXT_BLOCK (buffer ib) (block_size mem ib &&& BLOCK_SIZE)
    let mem := free_ex mem (buffer b) mem_pool
    let mem := store32 mem (area_head_at mem_pool) (buffer ib)
    (block_size mem b &&& BLOCK_SIZE, { mem := mem, mp := mem_pool })

def tlsf_malloc (s : Pool) (size : UInt32) : UInt32 × Pool :=
  let (ret, mem) := malloc_ex s.mem size s.mp
  (ret, { s with mem := mem })

def tlsf_free (s : Pool) (ptr : UInt32) : Pool := { s with mem := free_ex s.mem ptr s.mp }

def tlsf_realloc (s : Pool) (ptr size : UInt32) : UInt32 × Pool :=
  let (ret, mem) := realloc_ex s.mem ptr size s.mp
  (ret, { s with mem := mem })

def tlsf_calloc (s : Pool) (nelem elem_size : UInt32) : UInt32 × Pool :=
  let (ret, mem) := calloc_ex s.mem nelem elem_size s.mp
  (ret, { s with mem := mem })

end epos.tlsf
