import AllocChain.Proofs.Classes.Regular
import AllocChain.Proofs.Scripted
import AllocChain.Proofs.Twins

/-!
Two runs of a scripted heap. The heap reads nothing from memory and computes nothing that is not
there, so if it keeps to the contract it is its own twin (`ScriptedHeap.twins`). Its calls are
recorded, and the records of both runs are the same.
-/

namespace AllocChain.ScriptedHeap

open Memory

variable {T : Terms} {n : Nat} {out : List Slice} {s s' : ScriptedHeap × Machine}
  {size align : Nat} {old block : Slice}

/-- The same heap over two memories. -/
structure Twin (T : Terms) (s s' : ScriptedHeap × Machine) : Prop where
  heap : s'.1 = s.1
  top : T.may ∨ s.1.base + s.1.limit ≤ addressLimit
  mirror : T.mirror → s' = s

namespace Twin

theorem step (h : Twin T s s') (next : ScriptedHeap) (hbase : next.base = s.1.base)
    (hlimit : next.limit = s.1.limit) (f : Machine → Machine) :
    Twin T (next, f s.2) (next, f s'.2) := by
  refine ⟨rfl, ?_, fun hm => by rw [h.mirror hm]⟩
  rw [hbase, hlimit]
  exact h.top

theorem low (h : Twin T s s') (hh : Holds out s) :
    T.may ∨ ∀ block ∈ out, block.addr + block.len ≤ addressLimit := by
  refine h.top.imp_right fun htop block hb => ?_
  have hin := hh.inside block hb
  have hnext := hh.next_le
  simp only [Slice.Inside] at hin
  omega

end Twin

theorem carve_refused {h : ScriptedHeap} {e : AllocError} (hvalid : ValidRequest size align)
    (he : (h.carve size align).1 = .error e) : e = .outOfMemory size align := by
  obtain ⟨hs, k, hk⟩ := hvalid
  have hpow : Word.isPowerOfTwo (2 ^ k) = true := Word.isPowerOfTwo_two_pow k
  simp only [carve, hk, hpow, Bool.true_eq_false, or_false, if_neg (Nat.ne_of_gt hs)] at he
  split at he
  · cases he
    rfl
  · cases he

section Rules

variable {α : Type} {may : Prop} {post : α → ScriptedHeap × Machine → ScriptedHeap × Machine → Prop}
  {h : ScriptedHeap} {m m' : Machine}

theorem cut_bind {f f' : Answer → Act ScriptedHeap α}
    (hf : Act.Alike may post (f (h.carve size align).1) (f' (h.carve size align).1)
      ((h.carve size align).2, m) ((h.carve size align).2, m')) :
    Act.Alike may post (cut size align >>= f) (cut size align >>= f') (h, m) (h, m') :=
  fun hlog => hf hlog

theorem log_bind {call : Call} {f f' : Unit → Act ScriptedHeap α}
    (hf : Act.Alike may post (f ()) (f' ())
      (h, { m with calls := m.calls ++ [(h.number, call)] })
      (h, { m' with calls := m'.calls ++ [(h.number, call)] })) :
    Act.Alike may post (log call >>= f) (log call >>= f') (h, m) (h, m') :=
  fun hlog => hf (hlog.record _ _)

end Rules

theorem alloc_alike (h : Twin T s s') :
    Act.Alike T.may (Answered T (fun _ => Twin T) (ValidRequest size align) out out)
      (alloc size align) (alloc size align) s s' := by
  obtain ⟨heap, m⟩ := s
  obtain ⟨heap', m'⟩ := s'
  obtain rfl : heap' = heap := h.heap
  obtain ⟨hbase, hlimit, _⟩ := carve_spec heap' size align
  simp only [alloc]
  refine cut_bind (log_bind ?_)
  cases hanswer : (heap'.carve size align).1 with
  | error e =>
    have hpost := h.step _ hbase hlimit fun m =>
      { m with calls := m.calls ++ [((heap'.carve size align).2.number, .alloc size align none)] }
    exact .pure ⟨hpost, fun hvalid => carve_refused hvalid hanswer ▸ T.exhausted _ _⟩
  | ok block =>
    have hpost := h.step { (heap'.carve size align).2 with
      allocs := (heap'.carve size align).2.allocs + 1 } hbase hlimit fun m =>
      { m with calls :=
          m.calls ++ [((heap'.carve size align).2.number, .alloc size align (some block))] }
    exact .update_bind id (.pure hpost)

/-- A block is resized alike; what is copied may differ. -/
theorem resize_alike (h : Twin T s s') (hn : old.isNull = false) (hs : size ≠ 0) :
    Act.Alike T.may (Answered T (fun _ => Twin T) (ValidRequest size align) out (old :: out))
      (resize old size align) (resize old size align) s s' := by
  obtain ⟨heap, m⟩ := s
  obtain ⟨heap', m'⟩ := s'
  obtain rfl : heap' = heap := h.heap
  obtain ⟨hbase, hlimit, _⟩ := carve_spec heap' size align
  simp only [resize, hn, Bool.false_eq_true, if_false, if_neg hs]
  split
  · have hpost := h.step _ rfl rfl fun m =>
      { m with
        calls := m.calls ++ [(heap'.number, .resize old size align (some ⟨old.addr, size⟩))] }
    exact log_bind (.pure hpost)
  · refine cut_bind (log_bind ?_)
    cases hanswer : (heap'.carve size align).1 with
    | error e =>
      have hpost := h.step _ hbase hlimit fun m =>
        { m with
          calls := m.calls ++ [((heap'.carve size align).2.number, .resize old size align none)] }
      exact .pure ⟨hpost, fun hvalid => carve_refused hvalid hanswer ▸ T.exhausted _ _⟩
    | ok fresh =>
      have hpost := h.step _ hbase hlimit fun m => Machine.mapMemory
        { m with calls :=
            m.calls ++ [((heap'.carve size align).2.number, .resize old size align (some fresh))] }
        (·.copyCommon old fresh)
      exact .changeMemory_bind (.pure hpost)

theorem free_alike (h : Twin T s s') :
    Act.Alike T.may (fun _ => Twin T) (free block) (free block) s s' := by
  obtain ⟨heap, m⟩ := s
  obtain ⟨heap', m'⟩ := s'
  obtain rfl : heap' = heap := h.heap
  have hpost := h.step { heap' with frees := heap'.frees + 1 } rfl rfl fun m =>
    { m with calls := m.calls ++ [(heap'.number, .free block)] }
  exact fun hlog => .ends (hlog.record _ _) hpost

/-- A heap that keeps to the contract is its own twin. -/
theorem twins (T : Terms) :
    Twins T allocator Holds Holds fun _ _ => Twin T where
  left := service.keeper
  right := service.keeper
  service := service
  service' := service
  fewer := id
  perm _ h := h
  mirror hm h := h.mirror hm
  write hp _ _ hmirror :=
    ⟨hp.related.heap, hp.related.top, fun hm => Prod.ext hp.related.heap (hmirror hm)⟩
  low hp := hp.related.low hp.left
  alloc hp _ := alloc_alike hp.related
  resize hp hn hs _ := resize_alike hp.related hn hs
  free hp := free_alike hp.related
  free_null hp _ := free_alike hp.related

end AllocChain.ScriptedHeap
