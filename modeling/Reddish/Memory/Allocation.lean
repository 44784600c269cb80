import Reddish.Memory.Coherent

namespace Reddish

open Library

namespace Memory

/-!
# Allocation keeps the accounts

Each function is described by one lemma: what it hands out is added to the
accounts, and what is live stays where it is, on success and on failure.
-/

/-- What every allocation leaves alone: the settings of the resource and the
chunks that have a live block. -/
structure Keeps (live : List Block) (arena later : Arena) : Prop where
  limit_eq : later.limit = arena.limit
  hooked_eq : later.hooked = arena.hooked
  chunk_mem : forall chunk, chunk ∈ arena.chunks -> occupied live chunk = true ->
    chunk ∈ later.chunks

theorem Keeps.refl (live : List Block) (arena : Arena) : Keeps live arena arena where
  limit_eq := rfl
  hooked_eq := rfl
  chunk_mem := fun _ member _ => member

theorem Keeps.trans {live : List Block} {arena later last : Arena}
    (first : Keeps live arena later) (second : Keeps live later last) : Keeps live arena last where
  limit_eq := second.limit_eq.trans first.limit_eq
  hooked_eq := second.hooked_eq.trans first.hooked_eq
  chunk_mem := fun chunk member stays =>
    second.chunk_mem chunk (first.chunk_mem chunk member stays) stays

section Accounts

variable {arena : Arena} {live : List Block} {direct : List Range}

theorem Coherent.keeps_reclaim (coherent : Coherent arena live direct) :
    Keeps live arena (reclaim arena) := by
  rcases coherent.reclaim_spec with ⟨_, chunks, limit, hooked, _⟩
  refine ⟨limit, hooked, fun chunk member stays => ?_⟩
  rw [chunks]
  exact List.mem_filter.mpr ⟨member, stays⟩

/-! ## The resource -/

/-- Under a limit that is respected the subtraction does not wrap. -/
theorem Coherent.overLimit_iff (coherent : Coherent arena live direct) (limited : arena.limit ≠ 0)
    (bytes : Nat) : overLimit bytes arena <-> arena.limit < arena.used + bytes := by
  have bound := coherent.used_le limited
  have small := coherent.limit_lt
  unfold overLimit sub64
  have same : arena.used % 2 ^ 64 = arena.used := Nat.mod_eq_of_lt (by omega)
  rw [same]
  have difference : (arena.limit + (2 ^ 64 - arena.used)) % 2 ^ 64 = arena.limit - arena.used := by
    omega
  rw [difference]
  omega

/-- Room is made or the limit is reported. -/
theorem Coherent.makeRoom_spec (coherent : Coherent arena live direct) (bytes : Nat) :
    (makeRoom bytes).wp
      (fun _ later => Coherent later live direct ∧ Keeps live arena later ∧
        (later.limit ≠ 0 -> later.used + bytes ≤ later.limit))
      (fun _ later => Coherent later live direct ∧ Keeps live arena later) arena := by
  unfold makeRoom
  rw [Cmd.wp_bind, Cmd.wp_read]
  refine Cmd.wp_onlyIf (fun tight => ?_) (fun roomy => ?_)
  · rw [Cmd.wp_bind]
    have rest : forall later, Coherent later live direct -> Keeps live arena later ->
        (do
          let memory <- Cmd.read
          Cmd.require (¬ overLimit bytes memory) .memoryLimit : Op Unit).wp
          (fun _ last => Coherent last live direct ∧ Keeps live arena last ∧
            (last.limit ≠ 0 -> last.used + bytes ≤ last.limit))
          (fun _ last => Coherent last live direct ∧ Keeps live arena last) later := by
      intro later kept keeps
      rw [Cmd.wp_bind, Cmd.wp_read]
      refine Cmd.wp_require (fun fits => ⟨kept, keeps, fun limited => ?_⟩) (fun _ => ⟨kept, keeps⟩)
      rw [kept.overLimit_iff limited] at fits
      omega
    refine Cmd.wp_onlyIf (fun _ => ?_) (fun _ => rest arena coherent (Keeps.refl live arena))
    exact rest _ coherent.reclaim_spec.1 coherent.keeps_reclaim
  · refine ⟨coherent, Keeps.refl live arena, fun limited => ?_⟩
    rw [coherent.overLimit_iff limited] at roomy
    omega

theorem Coherent.take (coherent : Coherent arena live direct) {range : Range}
    (fresh : usable arena range) (supply : List (Option Nat))
    (room : arena.limit ≠ 0 -> arena.used + range.bytes ≤ arena.limit) :
    Coherent { arena with
      supply := supply, taken := range :: arena.taken, used := arena.used + range.bytes }
      live (range :: direct) := by
  refine ⟨?_, ?_, ?_, coherent.sound, coherent.blocks_eq, coherent.reserved_eq, ?_,
    coherent.limit_lt, room⟩
  · exact List.pairwise_cons.mpr ⟨fresh.2, coherent.apart⟩
  · intro other member
    rcases List.mem_cons.mp member with rfl | member
    · exact fresh.1
    · exact coherent.nonnull other member
  · refine (coherent.taken_eq.cons range).trans ?_
    rw [<- List.append_assoc, <- List.append_assoc]
    exact List.perm_middle.symm
  · change arena.used + range.bytes = Range.total (range :: arena.taken)
    rw [Range.total_cons, coherent.used_eq, Nat.add_comm]

/-- What the resource hands out belongs to the caller. -/
theorem Coherent.doAllocate_spec (coherent : Coherent arena live direct) (bytes : Nat) :
    (doAllocate bytes).wp
      (fun address later => Coherent later live (⟨address, bytes⟩ :: direct) ∧
        Keeps live arena later)
      (fun _ later => Coherent later live direct ∧ Keeps live arena later) arena := by
  unfold doAllocate
  refine Cmd.wp_step (coherent.makeRoom_spec bytes) ?_ (fun _ _ kept => kept)
  rintro _ later ⟨kept, keeps, room⟩
  have without : forall supply, Coherent { later with supply := supply } live direct :=
    fun _ => ⟨kept.apart, kept.nonnull, kept.taken_eq, kept.sound, kept.blocks_eq,
      kept.reserved_eq, kept.used_eq, kept.limit_lt, kept.used_le⟩
  have same : forall supply, Keeps live arena { later with supply := supply } :=
    fun _ => ⟨keeps.limit_eq, keeps.hooked_eq, keeps.chunk_mem⟩
  rw [Cmd.wp_bind]
  unfold Cmd.wp newDelete
  rcases answers : later.supply with _ | ⟨_ | address, supply⟩
  · exact ⟨kept, keeps⟩
  · exact ⟨without supply, same supply⟩
  · by_cases fresh : usable later ⟨address, bytes⟩
    · simp only [if_pos fresh]
      exact ⟨kept.take fresh supply room, keeps.limit_eq, keeps.hooked_eq, keeps.chunk_mem⟩
    · simp only [if_neg fresh]
      exact ⟨without supply, same supply⟩

theorem Coherent.doDeallocate_spec {range : Range} {rest : List Range}
    (coherent : Coherent arena live direct) (split : direct.Perm (range :: rest)) :
    Coherent (doDeallocate range.address range.bytes arena) live rest := by
  have owned : arena.taken.Perm
      (range :: (arena.chunks.flatMap Chunk.ranges ++ (largeRanges live ++ rest))) := by
    refine coherent.taken_eq.trans ?_
    rw [<- List.append_assoc, <- List.append_assoc]
    exact (split.append_left _).trans List.perm_middle
  have erased := Coherent.erase_of_perm_cons owned
  have bytes := Range.total_perm owned
  rw [Range.total_cons, <- Range.total_perm erased, <- coherent.used_eq] at bytes
  refine ⟨coherent.apart.sublist List.erase_sublist, ?_, erased, coherent.sound,
    coherent.blocks_eq, coherent.reserved_eq, ?_, coherent.limit_lt, ?_⟩
  · intro other member
    exact coherent.nonnull other (List.mem_of_mem_erase member)
  · change arena.used - range.bytes = Range.total (arena.taken.erase range)
    omega
  · intro limited
    have bound := coherent.used_le limited
    change arena.used - range.bytes ≤ arena.limit
    omega

/-! ## Chunks -/

/-- A chunk of the first size already has room for sixteen blocks of any
class, so the doubling loop never runs. -/
theorem growChunk_eq (index rounds : Nat) :
    growChunk (Slab.classSize index) rounds chunkBytes = chunkBytes := by
  have bound := Slab.classSize_le index
  have largest : Slab.largestClass = 4096 := rfl
  have size : chunkBytes = 65536 := rfl
  cases rounds with
  | zero => rfl
  | succ rounds => rw [growChunk, if_neg (by omega)]

theorem cutChunk_freeLists (chunk : Chunk) (arena : Arena) :
    (cutChunk chunk arena).freeLists = Function.update arena.freeLists chunk.index
      (chunk.blocks.reverse ++ arena.freeLists chunk.index) := by
  unfold cutChunk setFreeList Chunk.blocks blockStarts
  simp only [List.foldl_flip_cons_eq_append]

/-- Two ranges of the caller become a chunk and its record. -/
theorem Coherent.cutChunk_spec {chunk : Chunk} (sound : chunk.Sound)
    (coherent : Coherent arena live (⟨chunk.record, recordBytes⟩ :: chunk.range :: direct)) :
    Coherent (cutChunk chunk (registerChunk chunk arena)) live direct := by
  refine ⟨coherent.apart, coherent.nonnull, ?_, ?_, ?_, ?_, coherent.used_eq, coherent.limit_lt,
    coherent.used_le⟩
  · refine coherent.taken_eq.trans ?_
    change (_ ++ (_ ++ _ :: _ :: direct)).Perm (chunk.range :: ⟨chunk.record, recordBytes⟩ :: _)
    rw [<- List.append_assoc]
    refine List.perm_middle.trans ((List.perm_middle.cons _).trans ?_)
    rw [List.append_assoc]
    exact List.Perm.swap _ _ _
  · intro other member
    rcases List.mem_cons.mp member with rfl | member
    · exact sound
    · exact coherent.sound other member
  · intro index
    change (_ ++ (cutChunk chunk (registerChunk chunk arena)).freeLists index).Perm
      (classBlocks index (chunk :: arena.chunks))
    rw [cutChunk_freeLists, classBlocks_cons]
    change (_ ++ Function.update arena.freeLists chunk.index _ index).Perm _
    by_cases same : index = chunk.index
    · subst same
      rw [Function.update_self, if_pos rfl]
      have front : (slabBlocks chunk.index live ++
          (chunk.blocks.reverse ++ arena.freeLists chunk.index)).Perm
          (chunk.blocks ++ (slabBlocks chunk.index live ++ arena.freeLists chunk.index)) := by
        rw [<- List.append_assoc, <- List.append_assoc]
        refine List.Perm.append_right _ (List.perm_append_comm.trans ?_)
        exact (List.reverse_perm _).append_right _
      exact front.trans ((coherent.blocks_eq chunk.index).append_left _)
    · rw [Function.update_of_ne same, if_neg (fun equal => same equal.symm), List.nil_append]
      exact coherent.blocks_eq index
  · change arena.reserved + chunk.bytes = (List.map Chunk.bytes (chunk :: arena.chunks)).sum
    rw [List.map_cons, List.sum_cons, coherent.reserved_eq, Nat.add_comm]

/-- A new chunk gives free blocks of its class; a failure gives everything
back. -/
theorem Coherent.addChunk_spec (coherent : Coherent arena live direct) {index : Nat}
    (small : index < Slab.classCount) :
    (addChunk index).wp
      (fun _ later => Coherent later live direct ∧ Keeps live arena later ∧
        later.freeLists index ≠ [])
      (fun _ later => Coherent later live direct ∧ Keeps live arena later) arena := by
  unfold addChunk
  simp only [growChunk_eq]
  refine Cmd.wp_step (coherent.doAllocate_spec chunkBytes) ?_ (fun _ _ kept => kept)
  rintro address later ⟨kept, keeps⟩
  rw [Cmd.wp_bind, Cmd.wp_handle]
  unfold addRecord
  refine Cmd.wp_step (kept.doAllocate_spec recordBytes) ?_ ?_
  · rintro record last ⟨held, still⟩
    rw [Cmd.wp_bind, Cmd.wp_update, Cmd.wp_pure, Cmd.wp_update]
    have sound : (Chunk.mk record address chunkBytes index).Sound := ⟨rfl, small⟩
    refine ⟨held.cutChunk_spec sound, ?_, ?_⟩
    · have both := keeps.trans still
      exact ⟨both.limit_eq, both.hooked_eq,
        fun chunk member stays => List.mem_cons_of_mem _ (both.chunk_mem chunk member stays)⟩
    · rw [cutChunk_freeLists, Function.update_self]
      intro empty
      have none := (List.append_eq_nil_iff.mp empty).1
      have length := congrArg List.length none
      rw [List.length_reverse, Chunk.length_blocks] at length
      exact absurd length (Nat.ne_of_gt sound.blockCount_pos)
  · rintro refusal last ⟨held, still⟩
    rw [Cmd.wp_bind, Cmd.wp_update, Cmd.wp_raise]
    have both := keeps.trans still
    exact ⟨@Coherent.doDeallocate_spec _ _ _ ⟨address, chunkBytes⟩ _ held (List.Perm.refl _),
      both.limit_eq, both.hooked_eq, both.chunk_mem⟩

/-! ## Blocks -/

theorem slabBlocks_cons (index : Nat) (block : Block) (blocks : List Block) :
    slabBlocks index (block :: blocks) =
      (if block.size ≤ Slab.largestClass ∧ Slab.classIndex block.size = index then [block.address]
        else []) ++ slabBlocks index blocks := by
  unfold slabBlocks
  by_cases same : block.size ≤ Slab.largestClass ∧ Slab.classIndex block.size = index
  · rw [List.filter_cons_of_pos (by simpa using same), if_pos same]
    rfl
  · rw [List.filter_cons_of_neg (by simpa using same), if_neg same]
    rfl

theorem largeRanges_small {block : Block} (small : block.size ≤ Slab.largestClass)
    (blocks : List Block) : largeRanges (block :: blocks) = largeRanges blocks := by
  unfold largeRanges
  rw [List.filter_cons_of_neg (by simpa using small)]

theorem largeRanges_large {block : Block} (large : Slab.largestClass < block.size)
    (blocks : List Block) :
    largeRanges (block :: blocks) = ⟨block.address, block.size⟩ :: largeRanges blocks := by
  unfold largeRanges
  rw [List.filter_cons_of_pos (by simpa using large)]
  rfl

theorem Coherent.of_large {block : Block} (large : Slab.largestClass < block.size) :
    Coherent arena (block :: live) direct <->
      Coherent arena live (⟨block.address, block.size⟩ :: direct) := by
  have owned : (largeRanges (block :: live) ++ direct).Perm
      (largeRanges live ++ ⟨block.address, block.size⟩ :: direct) := by
    rw [largeRanges_large large]
    exact List.perm_middle.symm
  have slab : forall index, slabBlocks index (block :: live) = slabBlocks index live := by
    intro index
    rw [slabBlocks_cons, if_neg (fun both => absurd both.1 (Nat.not_le.mpr large)), List.nil_append]
  constructor
  · intro coherent
    refine ⟨coherent.apart, coherent.nonnull, ?_, coherent.sound, ?_, coherent.reserved_eq,
      coherent.used_eq, coherent.limit_lt, coherent.used_le⟩
    · exact coherent.taken_eq.trans (owned.append_left _)
    · intro index
      rw [<- slab index]
      exact coherent.blocks_eq index
  · intro coherent
    refine ⟨coherent.apart, coherent.nonnull, ?_, coherent.sound, ?_, coherent.reserved_eq,
      coherent.used_eq, coherent.limit_lt, coherent.used_le⟩
    · exact coherent.taken_eq.trans (owned.symm.append_left _)
    · intro index
      rw [slab index]
      exact coherent.blocks_eq index

/-- A block of a class moves between the free list and the live blocks. -/
theorem Coherent.of_small {block : Block} (small : block.size ≤ Slab.largestClass)
    (list : List Nat) :
    Coherent (setFreeList (Slab.classIndex block.size) list arena) (block :: live) direct <->
      Coherent (setFreeList (Slab.classIndex block.size) (block.address :: list) arena)
        live direct := by
  have owned := largeRanges_small small live
  have moved : forall index,
      (slabBlocks index (block :: live) ++
        Function.update arena.freeLists (Slab.classIndex block.size) list index).Perm
      (slabBlocks index live ++ Function.update arena.freeLists (Slab.classIndex block.size)
        (block.address :: list) index) := by
    intro index
    rw [slabBlocks_cons]
    by_cases same : index = Slab.classIndex block.size
    · subst same
      rw [if_pos ⟨small, rfl⟩, Function.update_self, Function.update_self]
      exact List.perm_middle.symm
    · rw [if_neg (fun both => same both.2.symm), Function.update_of_ne same,
        Function.update_of_ne same, List.nil_append]
  constructor
  · intro coherent
    refine ⟨coherent.apart, coherent.nonnull, ?_, coherent.sound, ?_, coherent.reserved_eq,
      coherent.used_eq, coherent.limit_lt, coherent.used_le⟩
    · rw [<- owned]
      exact coherent.taken_eq
    · exact fun index => (moved index).symm.trans (coherent.blocks_eq index)
  · intro coherent
    refine ⟨coherent.apart, coherent.nonnull, ?_, coherent.sound, ?_, coherent.reserved_eq,
      coherent.used_eq, coherent.limit_lt, coherent.used_le⟩
    · rw [owned]
      exact coherent.taken_eq
    · exact fun index => (moved index).trans (coherent.blocks_eq index)

theorem setFreeList_self (index : Nat) (arena : Arena) :
    setFreeList index (arena.freeLists index) arena = arena := by
  unfold setFreeList
  rw [Function.update_eq_self]

/-- The first free block becomes live. -/
theorem Coherent.popFree_spec (coherent : Coherent arena live direct) {size : Nat}
    (small : size ≤ Slab.largestClass) (nonempty : arena.freeLists (Slab.classIndex size) ≠ []) :
    (popFree (Slab.classIndex size)).wp
      (fun address later => Coherent later (⟨address, size⟩ :: live) direct ∧
        Keeps live arena later)
      (fun _ _ => False) arena := by
  unfold popFree
  rw [Cmd.wp_bind, Cmd.wp_read, Cmd.wp_bind, Cmd.wp_update, Cmd.wp_pure]
  cases list : arena.freeLists (Slab.classIndex size) with
  | nil => exact absurd list nonempty
  | cons address rest =>
      refine ⟨(@Coherent.of_small _ _ _ ⟨address, size⟩ small rest).mpr ?_,
        rfl, rfl, fun _ member _ => member⟩
      change Coherent (setFreeList (Slab.classIndex size) (address :: rest) arena) live direct
      rw [<- list, setFreeList_self]
      exact coherent

/-- What the pool hands out is live; a failure leaves everything live as it
was. -/
theorem Coherent.allocate_spec (coherent : Coherent arena live direct) (size : Nat) :
    (allocate size).wp
      (fun address later => Coherent later (⟨address, size⟩ :: live) direct ∧
        Keeps live arena later)
      (fun _ later => Coherent later live direct ∧ Keeps live arena later) arena := by
  unfold allocate
  refine Cmd.wp_ite (fun large => ?_) (fun notLarge => ?_)
  · refine Cmd.wp_mono (coherent.doAllocate_spec size) ?_ (fun _ _ kept => kept)
    rintro address later ⟨kept, keeps⟩
    exact ⟨(@Coherent.of_large _ _ _ ⟨address, size⟩ large).mpr kept, keeps⟩
  · have small : size ≤ Slab.largestClass := Nat.le_of_not_lt notLarge
    rw [Cmd.wp_bind, Cmd.wp_read, Cmd.wp_bind]
    have pop : forall later, Coherent later live direct -> Keeps live arena later ->
        later.freeLists (Slab.classIndex size) ≠ [] ->
        (popFree (Slab.classIndex size)).wp
          (fun address last => Coherent last (⟨address, size⟩ :: live) direct ∧
            Keeps live arena last)
          (fun _ last => Coherent last live direct ∧ Keeps live arena last) later := by
      intro later kept keeps nonempty
      refine Cmd.wp_mono (kept.popFree_spec small nonempty) ?_ (fun _ _ never => never.elim)
      rintro address last ⟨held, still⟩
      exact ⟨held, keeps.trans still⟩
    refine Cmd.wp_onlyIf (fun _ => ?_) (fun nonempty => pop _ coherent (Keeps.refl _ _) nonempty)
    refine Cmd.wp_mono (coherent.addChunk_spec (Slab.le_classSize_classIndex small).2) ?_
      (fun _ _ kept => kept)
    rintro _ later ⟨kept, keeps, nonempty⟩
    exact pop later kept keeps nonempty

theorem Coherent.live_perm {others : List Block} (coherent : Coherent arena live direct)
    (same : live.Perm others) : Coherent arena others direct := by
  refine ⟨coherent.apart, coherent.nonnull, ?_, coherent.sound, ?_, coherent.reserved_eq,
    coherent.used_eq, coherent.limit_lt, coherent.used_le⟩
  · exact coherent.taken_eq.trans ((((same.filter _).map _).append_right _).append_left _)
  · intro index
    exact (((same.filter _).map _).append_right _).symm.trans (coherent.blocks_eq index)

theorem Coherent.live_nonnull (coherent : Coherent arena live direct) {block : Block}
    (member : block ∈ live) : block.address ≠ 0 := by
  by_cases small : block.size ≤ Slab.largestClass
  · rcases coherent.chunk_of_live member small with ⟨chunk, chunkMember, _, place⟩
    have taken : chunk.range ∈ arena.taken :=
      coherent.taken_eq.mem_iff.mpr (List.mem_append_left _
        (List.mem_flatMap.mpr ⟨chunk, chunkMember, List.mem_cons_self⟩))
    have nonnull := coherent.nonnull _ taken
    have covered := (coherent.sound chunk chunkMember).covers place
    unfold Range.Covers at covered
    omega
  · have taken : (Range.mk block.address block.size) ∈ arena.taken :=
      coherent.taken_eq.mem_iff.mpr (List.mem_append_right _ (List.mem_append_left _
        (List.mem_map.mpr ⟨block, List.mem_filter.mpr ⟨member, by simpa using small⟩, rfl⟩)))
    exact coherent.nonnull _ taken

/-- A block that is returned is no longer live. -/
theorem Coherent.deallocate_spec (coherent : Coherent arena live direct) {block : Block}
    (member : block ∈ live) :
    Coherent (deallocate block.address block.size arena) (live.erase block) direct := by
  have front := coherent.live_perm (List.perm_cons_erase member)
  unfold deallocate
  rw [if_neg (coherent.live_nonnull member)]
  by_cases large : block.size > Slab.largestClass
  · rw [if_pos large]
    exact ((Coherent.of_large large).mp front).doDeallocate_spec (List.Perm.refl _)
  · rw [if_neg large]
    refine (Coherent.of_small (Nat.le_of_not_lt large) _).mp ?_
    rw [setFreeList_self]
    exact front

end Accounts

end Memory
end Reddish
