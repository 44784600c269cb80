import Reddish.Memory.Allocation

namespace Reddish

open Library

namespace Memory

/-!
# Runs of the pool and of its neighbours

The pool shares its resource with the bucket table, the expiry structures and
the hash tables.  A run is any sequence of their requests in which only what is
live is returned, and with the size it was asked for.
-/

/-- The resource with what is held from it: the blocks that the pool has handed
out, and the ranges taken from the resource itself. -/
structure System where
  arena : Arena
  live : List Block
  direct : List Range

/-- A request: to the pool, or to the resource directly. -/
inductive Request where
  | allocate (size : Nat)
  | deallocate (block : Block)
  | reclaim
  | take (bytes : Nat)
  | give (range : Range)

/-- Only what is held is returned. -/
def Request.Allowed (system : System) : Request -> Prop
  | .allocate _ => True
  | .deallocate block => block ∈ system.live
  | .reclaim => True
  | .take _ => True
  | .give range => range ∈ system.direct

namespace System

/-- The pool answered a request for a block. -/
def allocated (system : System) (size : Nat) : Except Refusal Nat × Arena -> System
  | (.ok address, arena) =>
      { system with arena := arena, live := ⟨address, size⟩ :: system.live }
  | (.error _, arena) => { system with arena := arena }

/-- The resource answered a request for a range. -/
def taken (system : System) (bytes : Nat) : Except Refusal Nat × Arena -> System
  | (.ok address, arena) =>
      { system with arena := arena, direct := ⟨address, bytes⟩ :: system.direct }
  | (.error _, arena) => { system with arena := arena }

def serve (system : System) : Request -> System
  | .allocate size => system.allocated size (allocate size system.arena)
  | .deallocate block =>
      { system with
        arena := deallocate block.address block.size system.arena
        live := system.live.erase block }
  | .reclaim => { system with arena := reclaim system.arena }
  | .take bytes => system.taken bytes (doAllocate bytes system.arena)
  | .give range =>
      { system with
        arena := doDeallocate range.address range.bytes system.arena
        direct := system.direct.erase range }

/-- The states that a run reaches, whatever the allocator below answers. -/
inductive Reachable (limit : Nat) (hooked : Bool) : System -> Prop where
  | start (supply : List (Option Nat)) :
      Reachable limit hooked ⟨start limit hooked supply, [], []⟩
  | serve {system : System} (request : Request) (reached : Reachable limit hooked system)
      (allowed : request.Allowed system) : Reachable limit hooked (system.serve request)

/-- The accounts are in order and the settings are those of the start. -/
structure Sound (limit : Nat) (hooked : Bool) (system : System) : Prop where
  coherent : Coherent system.arena system.live system.direct
  limit_eq : system.arena.limit = limit
  hooked_eq : system.arena.hooked = hooked

theorem sound_start {limit : Nat} (small : limit < 2 ^ 64) (hooked : Bool)
    (supply : List (Option Nat)) : Sound limit hooked ⟨start limit hooked supply, [], []⟩ where
  coherent := by
    refine ⟨List.Pairwise.nil, ?_, List.Perm.nil, ?_, fun _ => List.Perm.nil, rfl, rfl, small,
      fun _ => Nat.zero_le _⟩
    · intro range member
      cases member
    · intro chunk member
      cases member
  limit_eq := rfl
  hooked_eq := rfl

theorem deallocate_settings (block size : Nat) (arena : Arena) :
    (deallocate block size arena).limit = arena.limit ∧
      (deallocate block size arena).hooked = arena.hooked := by
  unfold deallocate
  by_cases null : block = 0
  · rw [if_pos null]
    exact ⟨rfl, rfl⟩
  · rw [if_neg null]
    by_cases large : size > Slab.largestClass
    · rw [if_pos large]
      exact ⟨rfl, rfl⟩
    · rw [if_neg large]
      exact ⟨rfl, rfl⟩

/-- Every request keeps the accounts in order. -/
theorem Sound.serve {limit : Nat} {hooked : Bool} {system : System}
    (sound : Sound limit hooked system) (request : Request) (allowed : request.Allowed system) :
    Sound limit hooked (system.serve request) := by
  cases request with
  | allocate size =>
      have spec := sound.coherent.allocate_spec size
      unfold Cmd.wp at spec
      change Sound limit hooked (system.allocated size (allocate size system.arena))
      rcases outcome : allocate size system.arena with ⟨refusal | address, later⟩ <;>
        rw [outcome] at spec <;>
        exact ⟨spec.1, spec.2.limit_eq.trans sound.limit_eq,
          spec.2.hooked_eq.trans sound.hooked_eq⟩
  | deallocate block =>
      rcases deallocate_settings block.address block.size system.arena with ⟨limit_eq, hooked_eq⟩
      exact ⟨sound.coherent.deallocate_spec allowed, limit_eq.trans sound.limit_eq,
        hooked_eq.trans sound.hooked_eq⟩
  | reclaim =>
      rcases sound.coherent.reclaim_spec with ⟨coherent, _, limit_eq, hooked_eq, _⟩
      exact ⟨coherent, limit_eq.trans sound.limit_eq, hooked_eq.trans sound.hooked_eq⟩
  | take bytes =>
      have spec := sound.coherent.doAllocate_spec bytes
      unfold Cmd.wp at spec
      change Sound limit hooked (system.taken bytes (doAllocate bytes system.arena))
      rcases outcome : doAllocate bytes system.arena with ⟨refusal | address, later⟩ <;>
        rw [outcome] at spec <;>
        exact ⟨spec.1, spec.2.limit_eq.trans sound.limit_eq,
          spec.2.hooked_eq.trans sound.hooked_eq⟩
  | give range =>
      exact ⟨sound.coherent.doDeallocate_spec (List.perm_cons_erase allowed), sound.limit_eq,
        sound.hooked_eq⟩

theorem Reachable.sound {limit : Nat} {hooked : Bool} {system : System} (small : limit < 2 ^ 64)
    (reached : Reachable limit hooked system) : Sound limit hooked system := by
  induction reached with
  | start supply => exact sound_start small hooked supply
  | serve request _ allowed ih => exact ih.serve request allowed

end System

/-! ## Blocks -/

/-- What the pool promises about the blocks it has handed out: they do not
overlap, they are large enough and lie in chunks of their class, and no block of
a chunk gets lost. -/
structure Disciplined (system : System) : Prop where
  apart : (system.live.map Block.footprint).Pairwise Range.Apart
  large_enough : forall block, block ∈ system.live -> block.size ≤ block.footprint.bytes
  in_chunk : forall block, block ∈ system.live -> block.size ≤ Slab.largestClass ->
    exists chunk, chunk ∈ system.arena.chunks ∧ chunk.index = Slab.classIndex block.size ∧
      block.address ∈ chunk.blocks ∧ block.footprint.Inside chunk.range
  once : forall chunk, chunk ∈ system.arena.chunks -> forall address, address ∈ chunk.blocks ->
    (slabBlocks chunk.index system.live).count address +
      (system.arena.freeLists chunk.index).count address = 1
  free_in_chunk : forall index address, address ∈ system.arena.freeLists index ->
    exists chunk, chunk ∈ system.arena.chunks ∧ chunk.index = index ∧ address ∈ chunk.blocks
  reserved_eq : system.arena.reserved = (system.arena.chunks.map Chunk.bytes).sum

namespace Coherent

variable {arena : Arena} {live : List Block} {direct : List Range}

theorem class_apart (coherent : Coherent arena live direct) (index : Nat) :
    (classBlocks index arena.chunks).Pairwise (fun first second =>
      (Range.mk first (Slab.classSize index)).Apart ⟨second, Slab.classSize index⟩) := by
  refine List.pairwise_flatMap.mpr ⟨?_, ?_⟩
  · intro chunk member
    have parts := List.mem_filter.mp member
    have kind : chunk.index = index := by simpa using parts.2
    have sound := coherent.sound chunk parts.1
    have distinct := nodup_blockStarts (classSize_pos sound.2) chunk.memory chunk.blockCount
    subst kind
    refine distinct.imp_of_mem ?_
    intro first second firstMember secondMember different
    exact apart_of_mem_blockStarts firstMember secondMember different
  · refine (coherent.chunks_apart.filter _).imp_of_mem ?_
    intro first second firstMember secondMember apart address member other otherMember
    have firstKind : first.index = index := by simpa using (List.mem_filter.mp firstMember).2
    have secondKind : second.index = index := by simpa using (List.mem_filter.mp secondMember).2
    refine Range.Apart.mono apart ?_ ?_
    · rw [<- firstKind]
      exact Chunk.inside_of_mem member
    · rw [<- secondKind]
      exact Chunk.inside_of_mem otherMember

theorem nodup_classBlocks (coherent : Coherent arena live direct) (index : Nat) :
    (classBlocks index arena.chunks).Nodup := by
  refine (coherent.class_apart index).imp_of_mem ?_
  rintro first second member _ apart rfl
  rcases mem_classBlocks.mp member with ⟨chunk, chunkMember, rfl, _⟩
  have positive := classSize_pos (coherent.sound chunk chunkMember).2
  unfold Range.Apart at apart
  simp only at apart
  omega

/-- The class of a live block, or none if the resource serves it. -/
def kindOf (block : Block) : Option Nat :=
  if block.size ≤ Slab.largestClass then some (Slab.classIndex block.size) else none

theorem kindOf_eq_none {block : Block} :
    kindOf block = none <-> Slab.largestClass < block.size := by
  unfold kindOf
  by_cases small : block.size ≤ Slab.largestClass
  · simp [small]
  · simp [small, Nat.lt_of_not_le small]

theorem kindOf_eq_some {block : Block} {index : Nat} :
    kindOf block = some index <->
      block.size ≤ Slab.largestClass ∧ Slab.classIndex block.size = index := by
  unfold kindOf
  by_cases small : block.size ≤ Slab.largestClass
  · simp [small]
  · simp [small]

theorem footprint_small {block : Block} (small : block.size ≤ Slab.largestClass) :
    block.footprint = ⟨block.address, Slab.classSize (Slab.classIndex block.size)⟩ := by
  rw [Block.footprint, if_pos small]

theorem footprint_large {block : Block} (large : ¬ block.size ≤ Slab.largestClass) :
    block.footprint = ⟨block.address, block.size⟩ := by
  rw [Block.footprint, if_neg large]

/-- The range that a live block lies in: its chunk, or its own. -/
theorem footprint_inside (coherent : Coherent arena live direct) {block : Block}
    (member : block ∈ live) (small : block.size ≤ Slab.largestClass) :
    exists chunk, chunk ∈ arena.chunks ∧ chunk.index = Slab.classIndex block.size ∧
      block.address ∈ chunk.blocks ∧ block.footprint.Inside chunk.range := by
  rcases coherent.chunk_of_live member small with ⟨chunk, chunkMember, kind, place⟩
  refine ⟨chunk, chunkMember, kind, place, ?_⟩
  rw [footprint_small small, <- kind]
  exact Chunk.inside_of_mem place

theorem large_mem {block : Block} (member : block ∈ live)
    (large : ¬ block.size ≤ Slab.largestClass) : block.footprint ∈ largeRanges live := by
  rw [footprint_large large]
  exact List.mem_map.mpr ⟨block, List.mem_filter.mpr ⟨member, by simpa using large⟩, rfl⟩

/-- A block of a chunk and a large block are apart. -/
theorem small_large_apart (coherent : Coherent arena live direct) {first second : Block}
    (firstMember : first ∈ live) (secondMember : second ∈ live)
    (small : first.size ≤ Slab.largestClass) (large : ¬ second.size ≤ Slab.largestClass) :
    first.footprint.Apart second.footprint := by
  rcases coherent.footprint_inside firstMember small with ⟨chunk, chunkMember, _, _, inside⟩
  have apart := (List.pairwise_append.mp coherent.owned_apart).2.2 chunk.range
    (List.mem_flatMap.mpr ⟨chunk, chunkMember, List.mem_cons_self⟩) second.footprint
    (List.mem_append_left _ (large_mem secondMember large))
  exact apart.mono inside (Range.inside_refl _)

theorem live_apart (coherent : Coherent arena live direct) :
    (live.map Block.footprint).Pairwise Range.Apart := by
  rw [List.pairwise_map]
  refine pairwise_of_classes kindOf ?_ ?_
  · intro kind
    cases kind with
    | none =>
        have large := (List.pairwise_append.mp
          (List.pairwise_append.mp coherent.owned_apart).2.1).1
        unfold largeRanges at large
        rw [List.pairwise_map] at large
        rw [List.filter_congr (fun block _ => decide_eq_decide.mpr kindOf_eq_none)]
        refine large.imp_of_mem ?_
        intro first second firstMember secondMember apart
        have firstLarge := (List.mem_filter.mp firstMember).2
        have secondLarge := (List.mem_filter.mp secondMember).2
        rw [footprint_large (by simpa using firstLarge), footprint_large (by simpa using secondLarge)]
        exact apart
    | some index =>
        have blocks := ((coherent.blocks_eq index).pairwise_iff
          (fun apart => Range.Apart.symm apart)).mpr (coherent.class_apart index)
        have slab := (List.pairwise_append.mp blocks).1
        unfold slabBlocks at slab
        rw [List.pairwise_map] at slab
        rw [List.filter_congr (fun block _ => decide_eq_decide.mpr kindOf_eq_some)]
        refine slab.imp_of_mem ?_
        intro first second firstMember secondMember apart
        have firstKind : first.size ≤ Slab.largestClass ∧ Slab.classIndex first.size = index := by
          simpa using (List.mem_filter.mp firstMember).2
        have secondKind : second.size ≤ Slab.largestClass ∧
            Slab.classIndex second.size = index := by
          simpa using (List.mem_filter.mp secondMember).2
        rw [footprint_small firstKind.1, footprint_small secondKind.1, firstKind.2, secondKind.2]
        exact apart
  · intro first firstMember second secondMember different
    by_cases firstSmall : first.size ≤ Slab.largestClass
    · by_cases secondSmall : second.size ≤ Slab.largestClass
      · rcases coherent.footprint_inside firstMember firstSmall with
          ⟨chunk, chunkMember, kind, _, inside⟩
        rcases coherent.footprint_inside secondMember secondSmall with
          ⟨other, otherMember, otherKind, _, otherInside⟩
        have chunks : chunk ≠ other := by
          rintro rfl
          apply different
          rw [kindOf, kindOf, if_pos firstSmall, if_pos secondSmall, <- kind, otherKind]
        have apart := @List.Pairwise.forall _ _ _ ⟨fun _ _ apart => Range.Apart.symm apart⟩
          coherent.chunks_apart _ chunkMember _ otherMember chunks
        exact Range.Apart.mono apart inside otherInside
      · exact coherent.small_large_apart firstMember secondMember firstSmall secondSmall
    · by_cases secondSmall : second.size ≤ Slab.largestClass
      · exact (coherent.small_large_apart secondMember firstMember secondSmall firstSmall).symm
      · exact absurd (by rw [kindOf, kindOf, if_neg firstSmall, if_neg secondSmall]) different

theorem disciplined (coherent : Coherent arena live direct) :
    Disciplined ⟨arena, live, direct⟩ where
  apart := coherent.live_apart
  large_enough := by
    intro block _
    by_cases small : block.size ≤ Slab.largestClass
    · rw [footprint_small small]
      exact (Slab.le_classSize_classIndex small).1
    · rw [footprint_large small]
  in_chunk := fun _ member small => coherent.footprint_inside member small
  once := by
    intro chunk member address place
    have present : address ∈ classBlocks chunk.index arena.chunks :=
      mem_classBlocks.mpr ⟨chunk, member, rfl, place⟩
    have count := (coherent.blocks_eq chunk.index).count_eq address
    rw [List.count_eq_one_of_mem (coherent.nodup_classBlocks chunk.index) present,
      List.count_append] at count
    exact count
  free_in_chunk := by
    intro index address free
    exact mem_classBlocks.mp ((coherent.blocks_eq index).mem_iff.mp (List.mem_append_right _ free))
  reserved_eq := coherent.reserved_eq

end Coherent

/-- In every state of every run the live blocks are apart, lie in chunks of
their classes and are large enough, every block of a chunk is either live or
free and no other block is free, the reserved bytes are those of the chunks,
and `reclaim` would release exactly the chunks without a live block and leave
the other free blocks in place. -/
theorem pool_disciplined {limit : Nat} {hooked : Bool} {system : System} (small : limit < 2 ^ 64)
    (reached : System.Reachable limit hooked system) :
    Disciplined system ∧
      (reclaim system.arena).chunks = system.arena.chunks.filter (occupied system.live) ∧
      (forall index, (reclaim system.arena).freeLists index =
        (system.arena.freeLists index).filter
          (staysFree system.live system.arena.chunks index)) := by
  have coherent := (reached.sound small).coherent
  rcases coherent.reclaim_spec with ⟨_, chunks, _, _, free⟩
  exact ⟨coherent.disciplined, chunks, free⟩

/-- Two blocks of one class and one of another class. -/
def threeBlocks : System :=
  ((System.serve ⟨start 200000 true [some 65536, some 8, some 131072, some 1024], [], []⟩
    (.allocate 72)).serve (.allocate 72)).serve (.allocate 100)

/-- Two blocks of one class, and a chunk that is empty again. -/
def twoBlocks : System :=
  threeBlocks.serve (.deallocate ⟨196488, 100⟩)

theorem reachable_twoBlocks : System.Reachable 200000 true twoBlocks := by
  have three : System.Reachable 200000 true threeBlocks :=
    .serve _ (.serve _ (.serve _ (.start _) trivial) trivial) trivial
  have live : ⟨196488, 100⟩ ∈ threeBlocks.live := by decide +kernel
  exact .serve _ three live

/-- The blocks lie in the chunk at 65536, and `reclaim` releases the other chunk. -/
theorem pool_disciplined_twoBlocks :
    twoBlocks.live = [⟨130912, 72⟩, ⟨130984, 72⟩] ∧ Disciplined twoBlocks ∧
      twoBlocks.arena.chunks.map Chunk.memory = [131072, 65536] ∧
      (reclaim twoBlocks.arena).chunks.map Chunk.memory = [65536] := by
  rcases pool_disciplined (by decide) reachable_twoBlocks with ⟨disciplined, chunks, -⟩
  refine ⟨by decide +kernel, disciplined, by decide +kernel, ?_⟩
  rw [chunks]
  decide +kernel

/-! ## Bytes -/

/-- What `reclaim` cannot release: the chunks that have a live block, their
records, the large blocks and what is held directly. -/
def unreclaimable (system : System) : List Range :=
  (system.arena.chunks.filter (occupied system.live)).flatMap Chunk.ranges ++
    (largeRanges system.live ++ system.direct)

/-- The first half of `do_allocate` with the hook installed. -/
theorem makeRoom_hooked {arena : Arena} (hooked : arena.hooked = true) (bytes : Nat) :
    makeRoom bytes arena =
      if arena.limit ≠ 0 ∧ overLimit bytes arena then
        (if overLimit bytes (reclaim arena) then (.error .memoryLimit, reclaim arena)
          else (.ok (), reclaim arena))
      else (.ok (), arena) := by
  unfold makeRoom
  change Cmd.onlyIf _ _ arena = _
  unfold Cmd.onlyIf
  by_cases tight : arena.limit ≠ 0 ∧ overLimit bytes arena
  · rw [if_pos tight, if_pos tight, if_pos hooked]
    change Cmd.require (¬ overLimit bytes (reclaim arena)) _ (reclaim arena) = _
    unfold Cmd.require
    by_cases still : overLimit bytes (reclaim arena)
    · rw [if_neg (not_not.mpr still), if_pos still]
      rfl
    · rw [if_pos still, if_neg still]
      rfl
  · rw [if_neg tight, if_neg tight]
    rfl

/-- The allocator below never reports the limit. -/
theorem newDelete_error {bytes : Nat} {arena later : Arena} {refusal : Refusal}
    (threw : newDelete bytes arena = (.error refusal, later)) : refusal = .badAlloc := by
  unfold newDelete at threw
  rcases answers : arena.supply with _ | ⟨_ | address, supply⟩
  · rw [answers] at threw
    cases threw
    rfl
  · rw [answers] at threw
    cases threw
    rfl
  · rw [answers] at threw
    by_cases fresh : usable arena ⟨address, bytes⟩
    · simp only [if_pos fresh] at threw
      cases threw
    · simp only [if_neg fresh] at threw
      cases threw
      rfl

/-- Only the first half of `do_allocate` reports the limit. -/
theorem doAllocate_memoryLimit_iff (bytes : Nat) (arena : Arena) :
    (doAllocate bytes arena).1 = .error .memoryLimit <->
      (makeRoom bytes arena).1 = .error .memoryLimit := by
  rcases outcome : makeRoom bytes arena with ⟨refusal | value, later⟩
  · have whole : doAllocate bytes arena = (.error refusal, later) := by
      change Cmd.bind (makeRoom bytes) _ arena = _
      simp only [Cmd.bind, outcome]
    rw [whole]
    simp
  · rcases answer : newDelete bytes later with ⟨refusal | address, last⟩
    · have whole : doAllocate bytes arena = (.error refusal, last) := by
        change Cmd.bind (makeRoom bytes) (fun _ => Cmd.bind (newDelete bytes) _) arena = _
        simp only [Cmd.bind, outcome, answer]
      rw [whole, newDelete_error answer]
      simp
    · have whole : (doAllocate bytes arena).1 = .ok address := by
        change (Cmd.bind (makeRoom bytes) (fun _ => Cmd.bind (newDelete bytes) _) arena).1 = _
        simp only [Cmd.bind, outcome, answer]
        rfl
      rw [whole]
      simp

section Limit

variable {system : System}

theorem total_unreclaimable (coherent : Coherent system.arena system.live system.direct) :
    Range.total (unreclaimable system) = (reclaim system.arena).used := by
  rcases coherent.reclaim_spec with ⟨after, chunks, _, _, _⟩
  have owned := after.taken_eq
  rw [chunks] at owned
  rw [after.used_eq, Range.total_perm owned]
  rfl

theorem used_reclaim_le (coherent : Coherent system.arena system.live system.direct) :
    (reclaim system.arena).used ≤ system.arena.used := by
  rw [<- total_unreclaimable coherent, coherent.used_eq, Range.total_perm coherent.taken_eq]
  unfold unreclaimable
  rw [Range.total_append, Range.total_append (system.arena.chunks.flatMap Chunk.ranges)]
  refine Nat.add_le_add_right ?_ _
  have fewer := (@List.filter_sublist _ (occupied system.live) system.arena.chunks).flatMap
    Chunk.ranges
  exact (fewer.map Range.bytes).sum_le_sum (fun _ _ => Nat.zero_le _)

/-- The resource reports the limit when and only when nothing helps. -/
theorem doAllocate_limit_iff (coherent : Coherent system.arena system.live system.direct)
    (limited : system.arena.limit ≠ 0) (hooked : system.arena.hooked = true) (bytes : Nat) :
    (doAllocate bytes system.arena).1 = .error .memoryLimit <->
      system.arena.limit < bytes + Range.total (unreclaimable system) := by
  rcases coherent.reclaim_spec with ⟨after, _, limit, _, _⟩
  have fewer := used_reclaim_le coherent
  have before := coherent.overLimit_iff limited bytes
  have still := after.overLimit_iff (by rw [limit]; exact limited) bytes
  rw [limit] at still
  rw [doAllocate_memoryLimit_iff, makeRoom_hooked hooked, total_unreclaimable coherent]
  by_cases tight : system.arena.limit ≠ 0 ∧ overLimit bytes system.arena
  · rw [if_pos tight]
    by_cases no : overLimit bytes (reclaim system.arena)
    · rw [if_pos no]
      refine ⟨fun _ => ?_, fun _ => rfl⟩
      have bound := still.mp no
      omega
    · rw [if_neg no]
      refine ⟨fun threw => (by cases threw), fun exceeds => ?_⟩
      exact absurd (still.mpr (by omega)) no
  · rw [if_neg tight]
    refine ⟨fun threw => (by cases threw), fun exceeds => ?_⟩
    exact absurd ⟨limited, before.mpr (by omega)⟩ tight

end Limit

/-- In every state of every run under a limit the used bytes are those that
are taken, and within the limit, so that the subtraction does not wrap; with
the hook installed a request is refused when and only when it does not fit
beside what cannot be reclaimed; and a request that the pool refuses leaves
the live blocks, the chunks they lie in and the accounts in order. -/
theorem limit_respected {limit : Nat} {hooked : Bool} {system : System} (positive : 0 < limit)
    (small : limit < 2 ^ 64) (reached : System.Reachable limit hooked system) :
    system.arena.used = Range.total system.arena.taken ∧
      system.arena.used ≤ limit ∧
      sub64 limit system.arena.used = limit - system.arena.used ∧
      system.arena.taken.Perm
        ((system.arena.chunks.filter (fun chunk => !occupied system.live chunk)).flatMap
          Chunk.ranges ++ unreclaimable system) ∧
      (hooked = true -> forall bytes,
        (doAllocate bytes system.arena).1 = .error .memoryLimit <->
          limit < bytes + Range.total (unreclaimable system)) ∧
      (forall size refusal later, allocate size system.arena = (.error refusal, later) ->
        Disciplined ⟨later, system.live, system.direct⟩ ∧
          later.used = Range.total later.taken ∧
          forall chunk, chunk ∈ system.arena.chunks -> occupied system.live chunk = true ->
            chunk ∈ later.chunks) := by
  have sound := reached.sound small
  have coherent := sound.coherent
  have limited : system.arena.limit ≠ 0 := by
    rw [sound.limit_eq]
    omega
  have bound := coherent.used_le limited
  rw [sound.limit_eq] at bound
  refine ⟨coherent.used_eq, bound, ?_, ?_, ?_, ?_⟩
  · unfold sub64
    have same : system.arena.used % 2 ^ 64 = system.arena.used := Nat.mod_eq_of_lt (by omega)
    rw [same]
    omega
  · have chunks : (system.arena.chunks.flatMap Chunk.ranges).Perm
        ((system.arena.chunks.filter (fun chunk => !occupied system.live chunk)).flatMap
          Chunk.ranges ++
          (system.arena.chunks.filter (occupied system.live)).flatMap Chunk.ranges) := by
      rw [<- List.flatMap_append]
      refine List.Perm.flatMap_right _ ?_
      exact (List.filter_append_perm _ _).symm.trans List.perm_append_comm
    have whole := chunks.append_right (largeRanges system.live ++ system.direct)
    rw [List.append_assoc] at whole
    exact coherent.taken_eq.trans whole
  · intro installed bytes
    have iff := doAllocate_limit_iff coherent limited (by rw [sound.hooked_eq]; exact installed) bytes
    rw [sound.limit_eq] at iff
    exact iff
  · intro size refusal later outcome
    have spec := Cmd.of_wp_error (coherent.allocate_spec size) outcome
    exact ⟨spec.1.disciplined, spec.1.used_eq, spec.2.chunk_mem⟩

/-- A request that does not fit beside the chunk of the two blocks. -/
theorem limit_respected_twoBlocks :
    twoBlocks.arena.used = Range.total twoBlocks.arena.taken ∧ twoBlocks.arena.used ≤ 200000 ∧
      ((doAllocate 200000 twoBlocks.arena).1 = .error .memoryLimit <->
        200000 < 200000 + Range.total (unreclaimable twoBlocks)) := by
  rcases limit_respected (by decide) (by decide) reachable_twoBlocks with
    ⟨used, bound, _, _, refused, _⟩
  exact ⟨used, bound, refused rfl 200000⟩

end Memory
end Reddish
