/-
Bit fields packed most significant bit first.

A list of bits (bytes holding `0` or `1`) is cut into chunks of eight, as
`slice::chunks` cuts it, and each chunk becomes one byte, its first bit the most
significant; a byte is read back by shifting each of its bits down in turn.

* `flatten_chunksAux` — the chunks of a list, put back together, are the list;
* `unpackByte_packChunk` — eight bits packed into a byte are read back;
* `unpack_pack` — a bit field whose length is a multiple of eight is read back
  from its packed bytes.

Nothing here is specific to BEEFY.
-/
import Mathlib

namespace Bits

variable {α : Type*}

/-- `chunksAux n k l`: the first `k` pieces of `l`, `n` elements each, the last shorter. -/
def chunksAux (n : ℕ) : ℕ → List α → List (List α)
  | 0, _ => []
  | k + 1, l => l.take n :: chunksAux n k (l.drop n)

/-- `slice::chunks(n)`: `l` cut into pieces of `n` elements, the last one shorter. -/
def chunks (n : ℕ) (l : List α) : List (List α) :=
  chunksAux n ((l.length + n - 1) / n) l

/-- Put back together, enough chunks of a list are the list. -/
theorem flatten_chunksAux (n : ℕ) :
    ∀ (k : ℕ) (l : List α), l.length ≤ k * n → (chunksAux n k l).flatten = l
  | 0, l, h => by simpa [chunksAux] using h
  | k + 1, l, h => by
    have ih := flatten_chunksAux n k (l.drop n) (by rw [List.length_drop]; grind)
    rw [chunksAux, List.flatten_cons, ih, List.take_append_drop]

theorem length_of_mem_chunksAux (n : ℕ) :
    ∀ (k : ℕ) (l : List α), l.length = k * n → ∀ c ∈ chunksAux n k l, c.length = n
  | 0, _, _, c, hc => by simp [chunksAux] at hc
  | k + 1, l, h, c, hc => by
    rw [chunksAux, List.mem_cons] at hc
    rcases hc with rfl | hc
    · rw [List.length_take]
      grind
    · exact length_of_mem_chunksAux n k (l.drop n) (by rw [List.length_drop]; grind) c hc

theorem chunksAux_map {β : Type*} (f : α → β) (n : ℕ) :
    ∀ (k : ℕ) (l : List α), chunksAux n k (l.map f) = (chunksAux n k l).map (List.map f)
  | 0, _ => rfl
  | k + 1, l => by
    rw [chunksAux, chunksAux, List.map_cons, ← List.map_take, ← List.map_drop,
      chunksAux_map f n k]

/-- A bit as the byte `0` or `1`. -/
def bitOf (b : Bool) : UInt8 := if b then 1 else 0

/-- Eight bits into one byte, the first the most significant: the first bit is the
start value, and each next one is shifted in from the right. -/
def packChunk : List UInt8 → UInt8
  | [] => 0
  | first :: rest => rest.foldl (fun v bit => (v <<< 1) ||| bit) first

/-- The eight bits of a byte, most significant first. -/
def unpackByte (block : UInt8) : List UInt8 :=
  (List.range 8).map fun bit => (block >>> (8 - bit - 1).toUInt8) &&& 1

/-- Eight bits packed into a byte are read back. -/
theorem unpackByte_packChunk (b₀ b₁ b₂ b₃ b₄ b₅ b₆ b₇ : Bool) :
    unpackByte (packChunk ([b₀, b₁, b₂, b₃, b₄, b₅, b₆, b₇].map bitOf)) =
      [b₀, b₁, b₂, b₃, b₄, b₅, b₆, b₇].map bitOf := by
  revert b₀ b₁ b₂ b₃ b₄ b₅ b₆ b₇
  decide

theorem unpackByte_packChunk_of_length {c : List Bool} (hc : c.length = 8) :
    unpackByte (packChunk (c.map bitOf)) = c.map bitOf := by
  match c, hc with
  | [b₀, b₁, b₂, b₃, b₄, b₅, b₆, b₇], _ => exact unpackByte_packChunk b₀ b₁ b₂ b₃ b₄ b₅ b₆ b₇

/-- **Bit field round trip.**  A bit field of a multiple of eight bits is read back
from the bytes its chunks pack into. -/
theorem unpack_pack (bs : List Bool) (k : ℕ) (h : bs.length = k * 8) :
    ((chunksAux 8 k (bs.map bitOf)).map packChunk).flatMap unpackByte = bs.map bitOf := by
  have hchunk : ∀ c ∈ chunksAux 8 k bs, unpackByte (packChunk (c.map bitOf)) = c.map bitOf :=
    fun c hc => unpackByte_packChunk_of_length (length_of_mem_chunksAux 8 k bs h c hc)
  rw [chunksAux_map, List.map_map, List.flatMap_map]
  calc (chunksAux 8 k bs).flatMap (fun c => unpackByte (packChunk (c.map bitOf)))
      = (chunksAux 8 k bs).flatMap (List.map bitOf) := List.flatMap_congr hchunk
    _ = (chunksAux 8 k bs).flatten.map bitOf := by rw [List.map_flatten, List.flatMap_def]
    _ = bs.map bitOf := by rw [flatten_chunksAux 8 k bs h.le]

end Bits
