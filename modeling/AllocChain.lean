import AllocChain.Word.Align
import AllocChain.Bits.Bitmap
import AllocChain.Bits.BitSet
import AllocChain.Memory.Basic
import AllocChain.Request.Element
import AllocChain.Allocator
import AllocChain.Bump.Arena
import AllocChain.Bump.Fixed
import AllocChain.Bump.Slab
import AllocChain.Classes.Bucket
import AllocChain.Classes.GeneralPurpose
import AllocChain.Counting
import AllocChain.Platform.Basic
import AllocChain.Platform.Heap
import AllocChain.Platform.Pages
import AllocChain.Scripted
import AllocChain.World.Basic
import AllocChain.Bits.Sequence
import AllocChain.Bits.Lemmas
import AllocChain.Machine.Lemmas
import AllocChain.Word.Rounding
import AllocChain.Proofs.Contract
import AllocChain.Proofs.Inversion
import AllocChain.Proofs.Bits.BitSet
import AllocChain.Proofs.Bits.Bitmap
import AllocChain.Proofs.Run
import AllocChain.Proofs.Bump.Place
import AllocChain.Proofs.Bump.Region
import AllocChain.Proofs.Request
import AllocChain.Proofs.Bump.Fixed
import AllocChain.Proofs.Bump.Chunks
import AllocChain.Proofs.Bump.Arena
import AllocChain.Proofs.Lease
import AllocChain.Proofs.Bump.Separation
import AllocChain.Proofs.Classes.Bucket
import AllocChain.Proofs.Classes.Table
import AllocChain.Proofs.Classes.Change
import AllocChain.Proofs.Classes.Steps
import AllocChain.Proofs.Classes.Tenant
import AllocChain.Proofs.Classes.Partition
import AllocChain.Proofs.Lending
import AllocChain.Proofs.Bump.Slab
import AllocChain.Proofs.Classes.Custody
import AllocChain.Proofs.Recall
import AllocChain.Proofs.Ownership
import AllocChain.Proofs.Breakdown
import AllocChain.Proofs.Classes.Lookup
import AllocChain.Proofs.Classes.Release
import AllocChain.Proofs.Classes.Resize
import AllocChain.Proofs.Classes.Shape
import AllocChain.Proofs.Classes.Regular
import AllocChain.Proofs.Bump.Top
import AllocChain.Proofs.Bump.Strangers
import AllocChain.Proofs.Bump.Nested
import AllocChain.Proofs.Bump.Unwind
import AllocChain.Proofs.Bump.Restore
import AllocChain.Proofs.Bump.Fresh
import AllocChain.Proofs.Frame
import AllocChain.Proofs.Housed
import AllocChain.Proofs.Bump.Brackets
import AllocChain.Proofs.Counting
import AllocChain.Proofs.Bump.Seated
import AllocChain.Proofs.Chain.Tier
import AllocChain.Proofs.Bump.Opening
import AllocChain.Proofs.Chain.Run
import AllocChain.Proofs.Chain.Refusal
import AllocChain.Proofs.Scripted
import AllocChain.Proofs.Bump.Undo
import AllocChain.Proofs.Classes.Undo
import AllocChain.Proofs.Chain.Undo
import AllocChain.Proofs.Classes.Short
import AllocChain.Proofs.Alike
import AllocChain.Proofs.Twins
import AllocChain.Proofs.Bump.Low
import AllocChain.Proofs.Bump.Twins
import AllocChain.Proofs.Bump.ArenaTwins
import AllocChain.Proofs.Bump.SlabTwins
import AllocChain.Proofs.CountingTwins
import AllocChain.Proofs.Classes.Twins
import AllocChain.Proofs.Chain.TierTwins
import AllocChain.Proofs.Chain.Twins
import AllocChain.Proofs.Chain.Course
import AllocChain.Proofs.ScriptedCut
import AllocChain.Proofs.ScriptedTwins
import AllocChain.Proofs.Chain.Footing
import AllocChain.Proofs.Chain.Total
import AllocChain.Proofs.Watch
import AllocChain.Proofs.Chain.Errors
import AllocChain.Proofs.Blind
import AllocChain.Proofs.Rooms
import AllocChain.Proofs.Classes.Rooms
import AllocChain.Proofs.Chain.Ground
import AllocChain.Proofs.Chain.Crown
import AllocChain.Proofs.Chain.Payload
import AllocChain.Proofs.Bump.SlabStack
import AllocChain.Proofs.Bump.InPlace
import AllocChain.Proofs.Bump.Heap
import AllocChain.Proofs.Bump.Shrinking
import AllocChain.Proofs.Bump.Tight
import AllocChain.Proofs.Bump.Replenish
import AllocChain.Proofs.Classes.FirstFit
import AllocChain.Proofs.Classes.AnyOrder
import AllocChain.Proofs.Bits.Marks
import AllocChain.Proofs.Platform.Rounding
import AllocChain.Proofs.Tally
import AllocChain.Proofs.Classes.Sizes
import AllocChain.Proofs.Platform.Mapping
import AllocChain.Proofs.Platform.Steps
import AllocChain.Proofs.Platform.Tiling
