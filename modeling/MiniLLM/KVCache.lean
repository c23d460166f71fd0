import MiniLLM.Loops
import MiniLLM.Status

/-!
The CPU side of runtime/cache/kv_cache.cpp: one K and one V buffer a layer, rows
of `kv_hidden` floats, and the number of rows that count.
-/

namespace MiniLLM

open Loops

structure KVCacheLayer (Elem : Type) where
  k : Buffer Elem
  v : Buffer Elem

structure KVCache (Elem : Type) where
  layers : List (KVCacheLayer Elem) := []
  numKvHeads : Int := 0
  headDim : Int := 0
  maxSeqLen : Int := 0
  cachedLen : Int := 0

namespace KVCache

variable {Elem : Type}

def numLayers (cache : KVCache Elem) : Int := cache.layers.length
/-- Exact here, an `int` in the source. -/
def kvHidden (cache : KVCache Elem) : Int := cache.numKvHeads * cache.headDim
def initialized (cache : KVCache Elem) : Bool := cache.maxSeqLen > 0

def release (_ : KVCache Elem) : KVCache Elem := {}

def zeroLayer [Zero Elem] : KVCacheLayer Elem := ⟨fun _ => 0, fun _ => 0⟩

def init [Zero Elem] (cache : KVCache Elem) (numLayers numKvHeads headDim maxSeqLen : Int) :
    KVCache Elem :=
  let cache := cache.release
  if numLayers ≤ 0 ∨ numKvHeads ≤ 0 ∨ headDim ≤ 0 ∨ maxSeqLen ≤ 0 then cache
  else
    { layers := List.replicate numLayers.toNat zeroLayer
      numKvHeads := numKvHeads
      headDim := headDim
      maxSeqLen := maxSeqLen
      cachedLen := 0 }

def setCachedLen (cache : KVCache Elem) (len : Int) : KVCache Elem :=
  { cache with cachedLen := max 0 (min len cache.maxSeqLen) }

def advance (cache : KVCache Elem) (n : Int) : KVCache Elem :=
  cache.setCachedLen (wrap32 (cache.cachedLen + n))

def canAppend (cache : KVCache Elem) (n : Int) : Bool :=
  n ≥ 0 && cache.cachedLen ≤ cache.maxSeqLen && n ≤ cache.maxSeqLen - cache.cachedLen

def reset [Zero Elem] (cache : KVCache Elem) : KVCache Elem :=
  { cache with cachedLen := 0, layers := cache.layers.map fun _ => zeroLayer }

def layer [Zero Elem] (cache : KVCache Elem) (li : Int) : KVCacheLayer Elem :=
  cache.layers.getD li.toNat zeroLayer

def modifyLayer (cache : KVCache Elem) (li : Int) (f : KVCacheLayer Elem → KVCacheLayer Elem) :
    KVCache Elem :=
  { cache with layers := cache.layers.modify li.toNat f }

theorem modifyLayer_layer [Zero Elem] (cache : KVCache Elem) (li : Int)
    (f : KVCacheLayer Elem → KVCacheLayer Elem) (low : 0 ≤ li) (high : li < cache.numLayers) :
    (cache.modifyLayer li f).layer li = f (cache.layer li) := by
  have bound : li.toNat < cache.layers.length := by
    simp only [numLayers] at high
    omega
  simp [layer, modifyLayer, List.getD_eq_getElem?_getD, bound]

theorem advance_cachedLen (cache : KVCache Elem) (n : Int) (low : 0 ≤ cache.cachedLen)
    (nonneg : 0 ≤ n) (room : cache.cachedLen + n ≤ cache.maxSeqLen)
    (int : cache.maxSeqLen < 2147483648) : (cache.advance n).cachedLen = cache.cachedLen + n := by
  rw [advance, setCachedLen, wrap32_eq _ (by omega) (by omega)]
  simp only
  omega

end KVCache

end MiniLLM
