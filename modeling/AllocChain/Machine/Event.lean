/-!
What allocators report about their work: one constructor for each kind of report, and one place
where its level, wording and fields are given.
-/

namespace AllocChain

/-- How much a report matters. -/
inductive Level where | trace | debug | warn
  deriving DecidableEq, Repr

/-- The value of a field: a plain number, or an address. -/
inductive Field where
  | number (n : Nat)
  | address (a : Nat)
  deriving DecidableEq, Repr

/-- A report of an allocator; `addr` is always an address and the rest are numbers. -/
inductive Event where
  | fixedAlloc (size align addr : Nat)
  | fixedResizeInPlace (old new addr : Nat)
  | fixedFreeIgnored (addr : Nat)
  | chunkAcquired (capacity align addr : Nat)
  | chunkReleased (capacity addr : Nat)
  | arenaAlloc (size align addr : Nat)
  | arenaAllocInNewChunk (size align addr chunks : Nat)
  | arenaResizeInPlace (old new addr : Nat)
  | arenaFreeIgnored (addr : Nat)
  | arenaFree (addr used : Nat)
  | arenaDestroyed (chunks : Nat)
  | slabAcquired (capacity align addr : Nat)
  | slabAlloc (size align addr : Nat)
  | slabAllocInNewSlab (size align addr slabs : Nat)
  | slabFreeIgnored (addr : Nat)
  | slabsDestroyed (slabs : Nat)
  | bucketCreated (objSize slotCount addr : Nat)
  | bucketReleased (objSize addr : Nat)
  | smallAlloc (size sizeClass addr : Nat)
  | smallFree (sizeClass slot : Nat)
  | resizeWithinClass (old new sizeClass : Nat)
  | largeAlloc (size align addr : Nat)
  | largeResize (old new addr : Nat)
  | largeFree (addr len : Nat)
  | freeUnrecognised (addr : Nat)
  | classesDestroyed (buckets large : Nat)
  | heapAlloc (size align addr : Nat)
  | heapRealloc (old new addr : Nat)
  | heapFree (addr : Nat)
  | pageAlloc (size pages addr : Nat)
  | pageAllocOverAligned (size align addr : Nat)
  | pageResizeInPlace (old new addr : Nat)
  | pageFree (addr len : Nat)
  deriving DecidableEq, Repr

namespace Event

/-- Memory that comes from behind or goes back there is worth `debug`, the rest is `trace`. -/
def level : Event → Level
  | chunkAcquired .. | chunkReleased .. | arenaDestroyed .. | slabAcquired .. | slabsDestroyed ..
  | bucketCreated .. | bucketReleased .. | classesDestroyed .. | pageAllocOverAligned .. => .debug
  | freeUnrecognised .. => .warn
  | _ => .trace

/-- The wording of a report. -/
def message : Event → String
  | fixedAlloc .. => "fixed alloc"
  | fixedResizeInPlace .. => "fixed resize in place"
  | fixedFreeIgnored .. => "fixed free ignored, not the most recent allocation"
  | chunkAcquired .. => "arena chunk acquired"
  | chunkReleased .. => "arena chunk released"
  | arenaAlloc .. => "arena alloc"
  | arenaAllocInNewChunk .. => "arena alloc in new chunk"
  | arenaResizeInPlace .. => "arena resize in place"
  | arenaFreeIgnored .. => "arena free ignored, not the top of the current chunk"
  | arenaFree .. => "arena free"
  | arenaDestroyed .. => "arena destroyed"
  | slabAcquired .. => "slab acquired"
  | slabAlloc .. => "slab alloc"
  | slabAllocInNewSlab .. => "slab alloc in new slab"
  | slabFreeIgnored .. => "slab free ignored"
  | slabsDestroyed .. => "slab allocator destroyed"
  | bucketCreated .. => "gpa bucket created"
  | bucketReleased .. => "gpa bucket released"
  | smallAlloc .. => "gpa small alloc"
  | smallFree .. => "gpa small free"
  | resizeWithinClass .. => "gpa resize within class"
  | largeAlloc .. => "gpa large alloc"
  | largeResize .. => "gpa large resize"
  | largeFree .. => "gpa large free"
  | freeUnrecognised .. => "gpa free of unrecognised pointer ignored"
  | classesDestroyed .. => "gpa destroyed"
  | heapAlloc .. => "c alloc"
  | heapRealloc .. => "c realloc"
  | heapFree .. => "c free"
  | pageAlloc .. => "page alloc"
  | pageAllocOverAligned .. => "page alloc over-aligned"
  | pageResizeInPlace .. => "page resize in place"
  | pageFree .. => "page free"

/-- The fields of a report about a request that was met at `addr`. -/
def requestFields (size align addr : Nat) : List (String × Field) :=
  [("size", .number size), ("align", .number align), ("ptr", .address addr)]

/-- The fields of a report about memory of some capacity that came from behind. -/
def capacityFields (capacity align addr : Nat) : List (String × Field) :=
  [("capacity", .number capacity), ("align", .number align), ("ptr", .address addr)]

/-- The fields of a report about a block whose length changed. -/
def resizeFields (old new addr : Nat) : List (String × Field) :=
  [("old", .number old), ("new", .number new), ("ptr", .address addr)]

/-- The named values of a report. -/
def fields : Event → List (String × Field)
  | fixedAlloc size align addr | arenaAlloc size align addr | slabAlloc size align addr
  | largeAlloc size align addr | heapAlloc size align addr
  | pageAllocOverAligned size align addr => requestFields size align addr
  | chunkAcquired capacity align addr | slabAcquired capacity align addr =>
    capacityFields capacity align addr
  | fixedResizeInPlace old new addr | arenaResizeInPlace old new addr | largeResize old new addr
  | heapRealloc old new addr | pageResizeInPlace old new addr => resizeFields old new addr
  | fixedFreeIgnored addr | arenaFreeIgnored addr | slabFreeIgnored addr | freeUnrecognised addr
  | heapFree addr => [("ptr", .address addr)]
  | chunkReleased capacity addr => [("capacity", .number capacity), ("ptr", .address addr)]
  | arenaAllocInNewChunk size align addr chunks =>
    requestFields size align addr ++ [("chunks", .number chunks)]
  | arenaFree addr used => [("ptr", .address addr), ("used", .number used)]
  | arenaDestroyed chunks => [("chunks", .number chunks)]
  | slabAllocInNewSlab size align addr slabs =>
    requestFields size align addr ++ [("slabs", .number slabs)]
  | slabsDestroyed slabs => [("slabs", .number slabs)]
  | bucketCreated objSize slotCount addr =>
    [("obj_size", .number objSize), ("slot_count", .number slotCount), ("ptr", .address addr)]
  | bucketReleased objSize addr => [("obj_size", .number objSize), ("ptr", .address addr)]
  | smallAlloc size sizeClass addr =>
    [("size", .number size), ("class", .number sizeClass), ("ptr", .address addr)]
  | smallFree sizeClass slot => [("class", .number sizeClass), ("slot", .number slot)]
  | resizeWithinClass old new sizeClass =>
    [("old", .number old), ("new", .number new), ("class", .number sizeClass)]
  | largeFree addr len | pageFree addr len => [("ptr", .address addr), ("len", .number len)]
  | classesDestroyed buckets large => [("buckets", .number buckets), ("large", .number large)]
  | pageAlloc size pages addr =>
    [("size", .number size), ("pages", .number pages), ("ptr", .address addr)]

end Event
end AllocChain
