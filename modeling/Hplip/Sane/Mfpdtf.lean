import Mathlib
import Hplip.Lib.Slice

/-!
# MFPDTF blocks (mfpdtf.c, mfpdtf.h, io.c)

A scanner sends its data in blocks. A block starts with a fixed header, which has the length of
the block, and has records after it.
-/

namespace Hplip.Sane.Mfpdtf

/-- `le16toh` of two bytes. -/
def le16 (a b : UInt8) : Nat := a.toNat + 256 * b.toNat

/-- `le32toh` of four bytes. -/
def le32 (a b c d : UInt8) : Nat := le16 a b + 65536 * le16 c d

def word16 (n : Nat) : List UInt8 := [n.toUInt8, (n / 256).toUInt8]

def word32 (n : Nat) : List UInt8 := word16 n ++ word16 (n / 65536)

theorem le16_word16 {n : Nat} (h : n < 2 ^ 16) :
    le16 n.toUInt8 (n / 256).toUInt8 = n := by
  simp only [le16, Nat.toUInt8, UInt8.toNat_ofNat']
  lia

theorem le32_word32 {n : Nat} (h : n < 2 ^ 32) :
    le32 n.toUInt8 (n / 256).toUInt8 (n / 65536).toUInt8 (n / 65536 / 256).toUInt8 = n := by
  simp only [le32, le16, Nat.toUInt8, UInt8.toNat_ofNat']
  lia

/-- `sizeof(MFPDTF_FIXED_HEADER)`. -/
abbrev sizeofFixedHeader : Nat := 8

/-- `ReadChannelEx`: what was read, and what the channel has left. -/
def readChannelEx (length : Nat) (channel : List UInt8) : List UInt8 × List UInt8 :=
  (channel.take length, channel.drop length)

/-- What `read_mfpdtf_block` leaves: its result, the buffer and the channel. -/
structure BlockRead where
  bsize : Int
  buf : Nat → UInt8
  channel : List UInt8

/-- `read_mfpdtf_block`. A negative size is nothing to read. -/
def readMfpdtfBlock (buf : Nat → UInt8) (bufSize : Nat) (channel : List UInt8) : BlockRead :=
  let (header, channel) := readChannelEx sizeofFixedHeader channel
  let buf := blit buf 0 (ofList header 0) header.length
  if header.length ≠ sizeofFixedHeader then ⟨0, buf, channel⟩
  else
    let bsize := le32 (buf 0) (buf 1) (buf 2) (buf 3)
    if bufSize < bsize then ⟨-1, buf, channel⟩
    else
      let (rest, channel) := readChannelEx (bsize - sizeofFixedHeader) channel
      let buf := blit buf sizeofFixedHeader (ofList rest 0) rest.length
      if (rest.length : Int) ≠ bsize - sizeofFixedHeader then ⟨-1, buf, channel⟩
      else ⟨bsize, buf, channel⟩

structure Block where
  flags : List UInt8
  content : List UInt8
  flags_length : flags.length = 4

def Block.size (b : Block) : Nat := sizeofFixedHeader + b.content.length

def Block.bytes (b : Block) : List UInt8 := word32 b.size ++ b.flags ++ b.content

theorem readMfpdtfBlock_eq (buf : Nat → UInt8) {bufSize : Nat} (b : Block)
    (hsize : b.size ≤ bufSize) (hmax : bufSize < 2 ^ 32) (channel : List UInt8) :
    ∃ buf', readMfpdtfBlock buf bufSize (b.bytes ++ channel) = ⟨b.size, buf', channel⟩
      ∧ slice buf' 0 b.size = b.bytes := by
  have hbytes : b.bytes = (word32 b.size ++ b.flags) ++ b.content := rfl
  have hlen : (word32 b.size ++ b.flags).length = sizeofFixedHeader := by
    simp [word32, word16, b.flags_length]
  have htake : (b.bytes ++ channel).take sizeofFixedHeader = word32 b.size ++ b.flags := by
    rw [hbytes, List.append_assoc, List.take_left' hlen]
  have hdrop : (b.bytes ++ channel).drop sizeofFixedHeader = b.content ++ channel := by
    rw [hbytes, List.append_assoc, List.drop_left' hlen]
  -- the buffer with the header in it
  obtain ⟨buf₁, hbuf₁⟩ : ∃ f : Nat → UInt8, f = blit buf 0
      (ofList (word32 b.size ++ b.flags) 0) sizeofFixedHeader := ⟨_, rfl⟩
  have hslice₁ : slice buf₁ 0 sizeofFixedHeader = word32 b.size ++ b.flags := by
    have := slice_blit_ofList buf 0 (word32 b.size ++ b.flags) 0
    rwa [Nat.zero_add, hlen, slice_zero, List.nil_append, ← hbuf₁] at this
  have hbsize : le32 (buf₁ 0) (buf₁ 1) (buf₁ 2) (buf₁ 3) = b.size := by
    rw [← le32_word32 (show b.size < 2 ^ 32 by omega), hbuf₁]
    rfl
  have hcontent : b.size - sizeofFixedHeader = b.content.length := by
    rw [Block.size, Nat.add_sub_cancel_left]
  refine ⟨blit buf₁ sizeofFixedHeader (ofList b.content 0) b.content.length, ?_, ?_⟩
  · have hrest : ((b.content.length : Nat) : Int) = b.size - sizeofFixedHeader := by
      rw [Block.size]
      omega
    rw [readMfpdtfBlock]
    simp only [readChannelEx, htake, hdrop, hlen]
    rw [← hbuf₁, hbsize]
    simp only [if_neg (Nat.not_lt.mpr hsize), hcontent, List.take_left, List.drop_left, hrest,
      ne_eq, not_true, if_false]
  · have := slice_blit_ofList buf₁ sizeofFixedHeader b.content 0
    rw [hslice₁] at this
    exact this

end Hplip.Sane.Mfpdtf
