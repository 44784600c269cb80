import Reddish.Memory.Pool

namespace Reddish

open Library

namespace Memory

/-!
# What the pool owns

Two lists are kept beside the state that the code does not have: the blocks
that were handed out and not yet returned, and the ranges that others hold
directly from the resource.  Together with the chunks they account for every
byte that is taken, and together with the free lists for every block of every
chunk.
-/

/-- A block that was handed out, with the size that was asked for. -/
structure Block where
  address : Nat
  size : Nat
  deriving DecidableEq

def Block.footprint (block : Block) : Range :=
  ⟨block.address, if block.size ≤ Slab.largestClass then
    Slab.classSize (Slab.classIndex block.size) else block.size⟩

def slabBlocks (index : Nat) (live : List Block) : List Nat :=
  (live.filter (fun block => block.size ≤ Slab.largestClass ∧
    Slab.classIndex block.size = index)).map Block.address

/-- The live blocks that were passed on to the resource. -/
def largeRanges (live : List Block) : List Range :=
  (live.filter (fun block => Slab.largestClass < block.size)).map
    (fun block => ⟨block.address, block.size⟩)

def Chunk.blocks (chunk : Chunk) : List Nat :=
  blockStarts chunk.memory (Slab.classSize chunk.index) chunk.blockCount

def classBlocks (index : Nat) (chunks : List Chunk) : List Nat :=
  (chunks.filter (fun chunk => chunk.index = index)).flatMap Chunk.blocks

/-- The size and the class of a chunk as `add_chunk` chooses them. -/
def Chunk.Sound (chunk : Chunk) : Prop :=
  chunk.bytes = chunkBytes ∧ chunk.index < Slab.classCount

/-- The accounts of the resource and of the pool.  What was taken from the allocator
below are the chunks with their records, the large blocks and what is held directly,
and every block of a chunk is either live or free. -/
structure Coherent (arena : Arena) (live : List Block) (direct : List Range) : Prop where
  apart : arena.taken.Pairwise Range.Apart
  nonnull : forall range, range ∈ arena.taken -> range.address ≠ 0
  taken_eq : arena.taken.Perm
    (arena.chunks.flatMap Chunk.ranges ++ (largeRanges live ++ direct))
  sound : forall chunk, chunk ∈ arena.chunks -> chunk.Sound
  blocks_eq : forall index,
    (slabBlocks index live ++ arena.freeLists index).Perm (classBlocks index arena.chunks)
  reserved_eq : arena.reserved = (arena.chunks.map Chunk.bytes).sum
  used_eq : arena.used = Range.total arena.taken
  limit_lt : arena.limit < 2 ^ 64
  used_le : arena.limit ≠ 0 -> arena.used ≤ arena.limit

/-! ## Chunks -/

theorem classSize_pos {index : Nat} (small : index < Slab.classCount) :
    0 < Slab.classSize index := by
  revert index
  decide

namespace Chunk

theorem fits (chunk : Chunk) :
    chunk.blockCount * Slab.classSize chunk.index ≤ chunk.bytes :=
  Nat.div_mul_le_self _ _

theorem Sound.blockCount_pos {chunk : Chunk} (sound : chunk.Sound) : 0 < chunk.blockCount := by
  have positive := classSize_pos sound.2
  have bound := Slab.classSize_le chunk.index
  refine Nat.div_pos ?_ positive
  rw [sound.1]
  exact Nat.le_trans bound (by decide)

theorem length_blocks (chunk : Chunk) : chunk.blocks.length = chunk.blockCount :=
  length_blockStarts _ _ _

theorem inside_of_mem {chunk : Chunk} {address : Nat}
    (member : address ∈ chunk.blocks) :
    (Range.mk address (Slab.classSize chunk.index)).Inside chunk.range :=
  inside_of_mem_blockStarts member chunk.fits

theorem Sound.covers {chunk : Chunk} (sound : chunk.Sound) {address : Nat}
    (member : address ∈ chunk.blocks) : chunk.range.Covers address := by
  have inside := inside_of_mem member
  have positive := classSize_pos sound.2
  unfold Range.Inside at inside
  unfold Range.Covers
  simp only at inside
  omega

end Chunk

theorem classBlocks_cons (index : Nat) (chunk : Chunk) (chunks : List Chunk) :
    classBlocks index (chunk :: chunks) =
      (if chunk.index = index then chunk.blocks else []) ++ classBlocks index chunks := by
  unfold classBlocks
  by_cases same : chunk.index = index
  · rw [List.filter_cons_of_pos (by simpa using same), List.flatMap_cons, if_pos same]
  · rw [List.filter_cons_of_neg (by simpa using same), if_neg same, List.nil_append]

theorem classBlocks_perm {first second : List Chunk} (same : first.Perm second) (index : Nat) :
    (classBlocks index first).Perm (classBlocks index second) :=
  (same.filter _).flatMap_right _

theorem mem_classBlocks {index : Nat} {chunks : List Chunk} {address : Nat} :
    address ∈ classBlocks index chunks <->
      exists chunk, chunk ∈ chunks ∧ chunk.index = index ∧ address ∈ chunk.blocks := by
  unfold classBlocks
  rw [List.mem_flatMap]
  constructor
  · rintro ⟨chunk, member, inside⟩
    have parts := List.mem_filter.mp member
    exact ⟨chunk, parts.1, by simpa using parts.2, inside⟩
  · rintro ⟨chunk, member, same, inside⟩
    exact ⟨chunk, List.mem_filter.mpr ⟨member, by simpa using same⟩, inside⟩

namespace Coherent

variable {arena : Arena} {live : List Block} {direct : List Range}

/-- Everything that is accounted for is apart. -/
theorem owned_apart (coherent : Coherent arena live direct) :
    (arena.chunks.flatMap Chunk.ranges ++ (largeRanges live ++ direct)).Pairwise Range.Apart :=
  (coherent.taken_eq.pairwise_iff (fun apart => Range.Apart.symm apart)).mp coherent.apart

theorem chunks_apart (coherent : Coherent arena live direct) :
    arena.chunks.Pairwise (fun first second => first.range.Apart second.range) := by
  have chunks := (List.pairwise_append.mp coherent.owned_apart).1
  refine (List.pairwise_flatMap.mp chunks).2.imp ?_
  intro first second apart
  exact apart _ List.mem_cons_self _ List.mem_cons_self

/-- An address belongs to one chunk at most. -/
theorem chunk_unique (coherent : Coherent arena live direct) {first second : Chunk}
    (firstMember : first ∈ arena.chunks) (secondMember : second ∈ arena.chunks) {address : Nat}
    (firstCovers : first.range.Covers address) (secondCovers : second.range.Covers address) :
    first = second := by
  by_contra different
  have apart := @List.Pairwise.forall _ _ _ ⟨fun _ _ apart => Range.Apart.symm apart⟩
    coherent.chunks_apart _ firstMember _ secondMember different
  exact apart.not_covers firstCovers secondCovers

/-- A large block lies in no chunk. -/
theorem large_not_covered (coherent : Coherent arena live direct) {chunk : Chunk}
    (member : chunk ∈ arena.chunks) {block : Block} (liveBlock : block ∈ live)
    (large : Slab.largestClass < block.size) : Not (chunk.range.Covers block.address) := by
  have apart := (List.pairwise_append.mp coherent.owned_apart).2.2 chunk.range
    (List.mem_flatMap.mpr ⟨chunk, member, List.mem_cons_self⟩) ⟨block.address, block.size⟩
    (List.mem_append_left _ (List.mem_map.mpr ⟨block, List.mem_filter.mpr
      ⟨liveBlock, by simpa using large⟩, rfl⟩))
  intro covered
  have own : (Range.mk block.address block.size).Covers block.address := by
    unfold Range.Covers
    simp only
    omega
  exact Range.Apart.not_covers apart covered own

/-! ## Releasing a chunk -/

variable {chunk : Chunk} {others : List Chunk}

theorem split_apart (coherent : Coherent arena live direct)
    (split : arena.chunks.Perm (chunk :: others)) {other : Chunk} (member : other ∈ others) :
    chunk.range.Apart other.range := by
  have pairs := (split.pairwise_iff (fun apart => Range.Apart.symm apart)).mp coherent.chunks_apart
  exact (List.pairwise_cons.mp pairs).1 other member

/-- The blocks of the other chunks lie elsewhere. -/
theorem others_not_covered (coherent : Coherent arena live direct)
    (split : arena.chunks.Perm (chunk :: others)) {index address : Nat}
    (member : address ∈ classBlocks index others) : Not (chunk.range.Covers address) := by
  rcases mem_classBlocks.mp member with ⟨other, otherMember, _, inside⟩
  have sound := coherent.sound other (split.mem_iff.mpr (List.mem_cons_of_mem _ otherMember))
  intro covered
  exact (coherent.split_apart split otherMember).not_covers covered (sound.covers inside)

/-- The blocks of the class, sorted into those of the chunk and the others. -/
theorem class_split (coherent : Coherent arena live direct)
    (split : arena.chunks.Perm (chunk :: others)) :
    (slabBlocks chunk.index live ++ arena.freeLists chunk.index).Perm
      (chunk.blocks ++ classBlocks chunk.index others) := by
  have blocks := (coherent.blocks_eq chunk.index).trans (classBlocks_perm split chunk.index)
  rw [classBlocks_cons, if_pos rfl] at blocks
  exact blocks

/-- The live and the free blocks of a chunk are all its blocks. -/
theorem length_inside (coherent : Coherent arena live direct)
    (split : arena.chunks.Perm (chunk :: others)) :
    ((slabBlocks chunk.index live).filter (fun address => chunk.range.Covers address)).length +
      (freeInside arena chunk).length = chunk.blockCount := by
  have sound := coherent.sound chunk (split.mem_iff.mpr List.mem_cons_self)
  have inside := (coherent.class_split split).filter (fun address => chunk.range.Covers address)
  have own : chunk.blocks.filter (fun address => chunk.range.Covers address) = chunk.blocks := by
    refine List.filter_eq_self.mpr (fun address member => ?_)
    simpa using sound.covers member
  have none : (classBlocks chunk.index others).filter
      (fun address => chunk.range.Covers address) = [] := by
    refine List.filter_eq_nil_iff.mpr (fun address member => ?_)
    simpa using coherent.others_not_covered split member
  rw [List.filter_append, List.filter_append, own, none, List.append_nil] at inside
  have lengths := inside.length_eq
  rw [List.length_append, Chunk.length_blocks] at lengths
  exact lengths

/-- The count of `reclaim` tells whether a block of the chunk is live. -/
theorem all_free_iff (coherent : Coherent arena live direct)
    (split : arena.chunks.Perm (chunk :: others)) :
    (freeInside arena chunk).length = chunk.blockCount <->
      forall address, address ∈ slabBlocks chunk.index live -> ¬ chunk.range.Covers address := by
  have sum := coherent.length_inside split
  constructor
  · intro full address member covered
    have zero : ((slabBlocks chunk.index live).filter
        (fun address => chunk.range.Covers address)).length = 0 := by
      omega
    have absent := List.filter_eq_nil_iff.mp (List.length_eq_zero_iff.mp zero) address member
    exact absent (by simpa using covered)
  · intro empty
    have absent : (slabBlocks chunk.index live).filter
        (fun address => chunk.range.Covers address) = [] := by
      refine List.filter_eq_nil_iff.mpr (fun address member => ?_)
      simpa using empty address member
    rw [absent] at sum
    simpa using sum

theorem erase_of_perm_cons {range : Range} {ranges rest : List Range}
    (split : ranges.Perm (range :: rest)) : (ranges.erase range).Perm rest := by
  have erased := split.erase range
  rw [List.erase_cons_head] at erased
  exact erased

/-- What a chunk without live blocks leaves behind. -/
theorem release (coherent : Coherent arena live direct)
    (split : arena.chunks.Perm (chunk :: others))
    (empty : forall address, address ∈ slabBlocks chunk.index live ->
      ¬ chunk.range.Covers address) :
    Coherent { releaseChunk chunk arena with chunks := others } live direct := by
  have sound := coherent.sound chunk (split.mem_iff.mpr List.mem_cons_self)
  have owned : arena.taken.Perm (chunk.range :: ⟨chunk.record, recordBytes⟩ ::
      (others.flatMap Chunk.ranges ++ (largeRanges live ++ direct))) := by
    refine coherent.taken_eq.trans ?_
    exact (split.flatMap_right Chunk.ranges).append_right _
  have first := erase_of_perm_cons owned
  have second := erase_of_perm_cons first
  have bytes := Range.total_perm owned
  rw [Range.total_cons, Range.total_cons, <- Range.total_perm second, <- coherent.used_eq] at bytes
  have used : arena.used - chunk.bytes - recordBytes =
      Range.total ((arena.taken.erase chunk.range).erase ⟨chunk.record, recordBytes⟩) := by
    change arena.used = chunk.bytes + (recordBytes + _) at bytes
    omega
  refine ⟨?_, ?_, second, ?_, ?_, ?_, used, coherent.limit_lt, ?_⟩
  · exact coherent.apart.sublist ((List.erase_sublist).trans List.erase_sublist)
  · intro range member
    exact coherent.nonnull range (List.mem_of_mem_erase (List.mem_of_mem_erase member))
  · intro other member
    exact coherent.sound other (split.mem_iff.mpr (List.mem_cons_of_mem _ member))
  · intro index
    change (_ ++ Function.update arena.freeLists chunk.index _ index).Perm _
    by_cases same : index = chunk.index
    · subst same
      rw [Function.update_self]
      have outside := (coherent.class_split split).filter
        (fun address => ¬ chunk.range.Covers address)
      have none : chunk.blocks.filter (fun address => ¬ chunk.range.Covers address) = [] := by
        refine List.filter_eq_nil_iff.mpr (fun address member => ?_)
        simpa using sound.covers member
      have rest : (classBlocks chunk.index others).filter
          (fun address => ¬ chunk.range.Covers address) = classBlocks chunk.index others := by
        refine List.filter_eq_self.mpr (fun address member => ?_)
        simpa using coherent.others_not_covered split member
      have kept : (slabBlocks chunk.index live).filter
          (fun address => ¬ chunk.range.Covers address) = slabBlocks chunk.index live := by
        refine List.filter_eq_self.mpr (fun address member => ?_)
        simpa using empty address member
      rw [List.filter_append, List.filter_append, none, rest, kept, List.nil_append] at outside
      exact outside
    · rw [Function.update_of_ne same]
      have blocks := (coherent.blocks_eq index).trans (classBlocks_perm split index)
      rw [classBlocks_cons, if_neg (fun equal => same equal.symm), List.nil_append] at blocks
      exact blocks
  · have sum := (split.map Chunk.bytes).sum_eq
    rw [List.map_cons, List.sum_cons, <- coherent.reserved_eq] at sum
    change arena.reserved - chunk.bytes = (others.map Chunk.bytes).sum
    omega
  · intro limited
    have bound := coherent.used_le limited
    change arena.used - chunk.bytes - recordBytes ≤ arena.limit
    omega

end Coherent

/-! ## Reclaiming -/

def occupied (live : List Block) (chunk : Chunk) : Bool :=
  live.any (fun block => chunk.range.Covers block.address)

theorem mem_slabBlocks {index : Nat} {live : List Block} {address : Nat} :
    address ∈ slabBlocks index live <->
      exists block, block ∈ live ∧ block.size ≤ Slab.largestClass ∧
        Slab.classIndex block.size = index ∧ block.address = address := by
  unfold slabBlocks
  rw [List.mem_map]
  constructor
  · rintro ⟨block, member, same⟩
    have parts := List.mem_filter.mp member
    have kind : block.size ≤ Slab.largestClass ∧ Slab.classIndex block.size = index := by
      simpa using parts.2
    exact ⟨block, parts.1, kind.1, kind.2, same⟩
  · rintro ⟨block, member, small, kind, same⟩
    exact ⟨block, List.mem_filter.mpr ⟨member, by simpa using ⟨small, kind⟩⟩, same⟩

namespace Coherent

variable {arena : Arena} {live : List Block} {direct : List Range}

theorem chunk_of_live (coherent : Coherent arena live direct) {block : Block}
    (member : block ∈ live) (small : block.size ≤ Slab.largestClass) :
    exists chunk, chunk ∈ arena.chunks ∧ chunk.index = Slab.classIndex block.size ∧
      block.address ∈ chunk.blocks := by
  have slab := mem_slabBlocks.mpr ⟨block, member, small, rfl, rfl⟩
  have blocks := (coherent.blocks_eq _).mem_iff.mp (List.mem_append_left _ slab)
  exact mem_classBlocks.mp blocks

/-- The live blocks in a chunk are those of its class. -/
theorem not_occupied_iff (coherent : Coherent arena live direct) {chunk : Chunk}
    (chunkMember : chunk ∈ arena.chunks) :
    occupied live chunk = false <->
      forall address, address ∈ slabBlocks chunk.index live -> ¬ chunk.range.Covers address := by
  constructor
  · intro vacant address member covered
    rcases mem_slabBlocks.mp member with ⟨block, blockMember, _, _, rfl⟩
    have absent := List.any_eq_false.mp vacant block blockMember
    exact absent (by simpa using covered)
  · intro none
    refine List.any_eq_false.mpr (fun block member covered => ?_)
    have inside : chunk.range.Covers block.address := by simpa using covered
    by_cases small : block.size ≤ Slab.largestClass
    · rcases coherent.chunk_of_live member small with ⟨other, otherMember, kind, place⟩
      have same := coherent.chunk_unique chunkMember otherMember inside
        ((coherent.sound other otherMember).covers place)
      subst same
      exact none _ (mem_slabBlocks.mpr ⟨block, member, small, kind.symm, rfl⟩) inside
    · exact coherent.large_not_covered chunkMember member (Nat.lt_of_not_le small) inside

end Coherent

/-- The free blocks that stay when the chunks without live blocks go. -/
def staysFree (live : List Block) (chunks : List Chunk) (index address : Nat) : Bool :=
  chunks.all (fun chunk => occupied live chunk || chunk.index ≠ index ||
    ¬ chunk.range.Covers address)

theorem releaseChunk_freeLists (chunk : Chunk) (arena : Arena) (index : Nat) :
    (releaseChunk chunk arena).freeLists index =
      (arena.freeLists index).filter (fun address => chunk.index ≠ index ||
        ¬ chunk.range.Covers address) := by
  change Function.update arena.freeLists chunk.index _ index = _
  by_cases same : index = chunk.index
  · subst same
    rw [Function.update_self]
    exact List.filter_congr (fun address _ => by simp)
  · rw [Function.update_of_ne same]
    refine (List.filter_eq_self.mpr (fun address _ => ?_)).symm
    simp [Ne.symm same]

/-- The loop keeps the accounts and the chunks that have a live block. -/
theorem reclaimFrom_spec {live : List Block} {direct : List Range} (before rest : List Chunk)
    {arena : Arena} (coherent : Coherent { arena with chunks := before ++ rest } live direct) :
    Coherent { (reclaimFrom rest arena).2 with chunks := before ++ (reclaimFrom rest arena).1 }
        live direct ∧
      (reclaimFrom rest arena).1 = rest.filter (occupied live) ∧
      (reclaimFrom rest arena).2.limit = arena.limit ∧
      (reclaimFrom rest arena).2.hooked = arena.hooked ∧
      forall index, (reclaimFrom rest arena).2.freeLists index =
        (arena.freeLists index).filter (staysFree live rest index) := by
  induction rest generalizing before arena with
  | nil =>
      refine ⟨coherent, rfl, rfl, rfl, fun index => ?_⟩
      exact (List.filter_eq_self.mpr (fun _ _ => rfl)).symm
  | cons chunk rest ih =>
      have split : (before ++ chunk :: rest).Perm (chunk :: (before ++ rest)) := List.perm_middle
      have member : chunk ∈ before ++ chunk :: rest :=
        List.mem_append_right _ List.mem_cons_self
      have criterion := (coherent.all_free_iff split).trans (coherent.not_occupied_iff member).symm
      change (freeInside arena chunk).length = chunk.blockCount <-> _ at criterion
      rw [reclaimFrom]
      by_cases vacant : occupied live chunk = false
      · have released : Coherent { releaseChunk chunk arena with chunks := before ++ rest }
            live direct :=
          coherent.release split ((coherent.not_occupied_iff member).mp vacant)
        rcases ih before released with ⟨kept, chunks, limit, hooked, free⟩
        rw [if_neg (not_not.mpr (criterion.mpr vacant)),
          List.filter_cons_of_neg (by rw [vacant]; exact Bool.false_ne_true)]
        refine ⟨kept, chunks, limit, hooked, fun index => ?_⟩
        rw [free, releaseChunk_freeLists, List.filter_filter]
        refine List.filter_congr (fun address _ => ?_)
        simp only [staysFree, List.all_cons, vacant, Bool.false_or]
        rw [Bool.and_comm]
      · have stays : occupied live chunk = true := by
          simpa using vacant
        have next : Coherent { arena with chunks := (before ++ [chunk]) ++ rest } live direct := by
          rw [List.append_assoc]
          exact coherent
        rcases ih (before ++ [chunk]) next with
          ⟨kept, chunks, limit, hooked, free⟩
        rw [if_pos (fun full => vacant (criterion.mp full)), List.filter_cons_of_pos stays]
        refine ⟨?_, ?_, limit, hooked, fun index => ?_⟩
        · rw [List.append_assoc] at kept
          exact kept
        · exact congrArg (List.cons chunk) chunks
        · rw [free]
          refine List.filter_congr (fun address _ => ?_)
          simp only [staysFree, List.all_cons, stays, Bool.true_or, Bool.true_and]

/-- `reclaim` keeps the accounts, releases exactly the chunks without a live
block, and leaves the free blocks of the others in place. -/
theorem Coherent.reclaim_spec {arena : Arena} {live : List Block} {direct : List Range}
    (coherent : Coherent arena live direct) :
    Coherent (reclaim arena) live direct ∧
      (reclaim arena).chunks = arena.chunks.filter (occupied live) ∧
      (reclaim arena).limit = arena.limit ∧ (reclaim arena).hooked = arena.hooked ∧
      forall index, (reclaim arena).freeLists index =
        (arena.freeLists index).filter (staysFree live arena.chunks index) :=
  reclaimFrom_spec [] arena.chunks coherent

end Memory
end Reddish
