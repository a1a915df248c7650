import Hplip.Lib.PrefixCode
import Hplip.Ip.JpegBits
import Mathlib.Data.List.TakeWhile

/-!
# The Huffman tables of a JPEG scan (xjpg_enc.c, xjpg_dec.c)

The encoder has its codes in tables; the decoder makes its own from the counts and values in
the header: an index by the next 9 or 12 bits, and an auxiliary table for the longer codes,
which is searched.
-/

namespace Hplip.Ip

open Bits PrefixCode

namespace JpegEnc

/-! ## The encoder's tables -/

/-- `huff_elem_t` -/
structure HuffElem where
  code : Nat
  size : Nat
  deriving DecidableEq

def lumDCTable : List HuffElem :=
  [⟨0x0000, 2⟩, ⟨0x0002, 3⟩, ⟨0x0003, 3⟩, ⟨0x0004, 3⟩, ⟨0x0005, 3⟩, ⟨0x0006, 3⟩, ⟨0x000e, 4⟩,
   ⟨0x001e, 5⟩, ⟨0x003e, 6⟩, ⟨0x007e, 7⟩, ⟨0x00fe, 8⟩, ⟨0x01fe, 9⟩, ⟨0x0000, 0⟩, ⟨0x0000, 0⟩,
   ⟨0x0000, 0⟩, ⟨0x0000, 0⟩, ⟨0x0000, 0⟩]

def lumACTable : List HuffElem :=
  [⟨0x000a, 4⟩, ⟨0x0000, 2⟩, ⟨0x0001, 2⟩, ⟨0x0004, 3⟩, ⟨0x000b, 4⟩, ⟨0x001a, 5⟩, ⟨0x0078, 7⟩,
   ⟨0x00f8, 8⟩, ⟨0x03f6, 10⟩, ⟨0xff82, 16⟩, ⟨0xff83, 16⟩, ⟨0x0000, 0⟩, ⟨0x0000, 0⟩, ⟨0x0000, 0⟩,
   ⟨0x0000, 0⟩, ⟨0x0000, 0⟩, ⟨0x0000, 0⟩, ⟨0x000c, 4⟩, ⟨0x001b, 5⟩, ⟨0x0079, 7⟩, ⟨0x01f6, 9⟩,
   ⟨0x07f6, 11⟩, ⟨0xff84, 16⟩, ⟨0xff85, 16⟩, ⟨0xff86, 16⟩, ⟨0xff87, 16⟩, ⟨0xff88, 16⟩,
   ⟨0x0000, 0⟩, ⟨0x0000, 0⟩, ⟨0x0000, 0⟩, ⟨0x0000, 0⟩, ⟨0x0000, 0⟩, ⟨0x0000, 0⟩, ⟨0x001c, 5⟩,
   ⟨0x00f9, 8⟩, ⟨0x03f7, 10⟩, ⟨0x0ff4, 12⟩, ⟨0xff89, 16⟩, ⟨0xff8a, 16⟩, ⟨0xff8b, 16⟩,
   ⟨0xff8c, 16⟩, ⟨0xff8d, 16⟩, ⟨0xff8e, 16⟩, ⟨0x0000, 0⟩, ⟨0x0000, 0⟩, ⟨0x0000, 0⟩, ⟨0x0000, 0⟩,
   ⟨0x0000, 0⟩, ⟨0x0000, 0⟩, ⟨0x003a, 6⟩, ⟨0x01f7, 9⟩, ⟨0x0ff5, 12⟩, ⟨0xff8f, 16⟩, ⟨0xff90, 16⟩,
   ⟨0xff91, 16⟩, ⟨0xff92, 16⟩, ⟨0xff93, 16⟩, ⟨0xff94, 16⟩, ⟨0xff95, 16⟩, ⟨0x0000, 0⟩,
   ⟨0x0000, 0⟩, ⟨0x0000, 0⟩, ⟨0x0000, 0⟩, ⟨0x0000, 0⟩, ⟨0x0000, 0⟩, ⟨0x003b, 6⟩, ⟨0x03f8, 10⟩,
   ⟨0xff96, 16⟩, ⟨0xff97, 16⟩, ⟨0xff98, 16⟩, ⟨0xff99, 16⟩, ⟨0xff9a, 16⟩, ⟨0xff9b, 16⟩,
   ⟨0xff9c, 16⟩, ⟨0xff9d, 16⟩, ⟨0x0000, 0⟩, ⟨0x0000, 0⟩, ⟨0x0000, 0⟩, ⟨0x0000, 0⟩, ⟨0x0000, 0⟩,
   ⟨0x0000, 0⟩, ⟨0x007a, 7⟩, ⟨0x07f7, 11⟩, ⟨0xff9e, 16⟩, ⟨0xff9f, 16⟩, ⟨0xffa0, 16⟩,
   ⟨0xffa1, 16⟩, ⟨0xffa2, 16⟩, ⟨0xffa3, 16⟩, ⟨0xffa4, 16⟩, ⟨0xffa5, 16⟩, ⟨0x0000, 0⟩,
   ⟨0x0000, 0⟩, ⟨0x0000, 0⟩, ⟨0x0000, 0⟩, ⟨0x0000, 0⟩, ⟨0x0000, 0⟩, ⟨0x007b, 7⟩, ⟨0x0ff6, 12⟩,
   ⟨0xffa6, 16⟩, ⟨0xffa7, 16⟩, ⟨0xffa8, 16⟩, ⟨0xffa9, 16⟩, ⟨0xffaa, 16⟩, ⟨0xffab, 16⟩,
   ⟨0xffac, 16⟩, ⟨0xffad, 16⟩, ⟨0x0000, 0⟩, ⟨0x0000, 0⟩, ⟨0x0000, 0⟩, ⟨0x0000, 0⟩, ⟨0x0000, 0⟩,
   ⟨0x0000, 0⟩, ⟨0x00fa, 8⟩, ⟨0x0ff7, 12⟩, ⟨0xffae, 16⟩, ⟨0xffaf, 16⟩, ⟨0xffb0, 16⟩,
   ⟨0xffb1, 16⟩, ⟨0xffb2, 16⟩, ⟨0xffb3, 16⟩, ⟨0xffb4, 16⟩, ⟨0xffb5, 16⟩, ⟨0x0000, 0⟩,
   ⟨0x0000, 0⟩, ⟨0x0000, 0⟩, ⟨0x0000, 0⟩, ⟨0x0000, 0⟩, ⟨0x0000, 0⟩, ⟨0x01f8, 9⟩, ⟨0x7fc0, 15⟩,
   ⟨0xffb6, 16⟩, ⟨0xffb7, 16⟩, ⟨0xffb8, 16⟩, ⟨0xffb9, 16⟩, ⟨0xffba, 16⟩, ⟨0xffbb, 16⟩,
   ⟨0xffbc, 16⟩, ⟨0xffbd, 16⟩, ⟨0x0000, 0⟩, ⟨0x0000, 0⟩, ⟨0x0000, 0⟩, ⟨0x0000, 0⟩, ⟨0x0000, 0⟩,
   ⟨0x0000, 0⟩, ⟨0x01f9, 9⟩, ⟨0xffbe, 16⟩, ⟨0xffbf, 16⟩, ⟨0xffc0, 16⟩, ⟨0xffc1, 16⟩,
   ⟨0xffc2, 16⟩, ⟨0xffc3, 16⟩, ⟨0xffc4, 16⟩, ⟨0xffc5, 16⟩, ⟨0xffc6, 16⟩, ⟨0x0000, 0⟩,
   ⟨0x0000, 0⟩, ⟨0x0000, 0⟩, ⟨0x0000, 0⟩, ⟨0x0000, 0⟩, ⟨0x0000, 0⟩, ⟨0x01fa, 9⟩, ⟨0xffc7, 16⟩,
   ⟨0xffc8, 16⟩, ⟨0xffc9, 16⟩, ⟨0xffca, 16⟩, ⟨0xffcb, 16⟩, ⟨0xffcc, 16⟩, ⟨0xffcd, 16⟩,
   ⟨0xffce, 16⟩, ⟨0xffcf, 16⟩, ⟨0x0000, 0⟩, ⟨0x0000, 0⟩, ⟨0x0000, 0⟩, ⟨0x0000, 0⟩, ⟨0x0000, 0⟩,
   ⟨0x0000, 0⟩, ⟨0x03f9, 10⟩, ⟨0xffd0, 16⟩, ⟨0xffd1, 16⟩, ⟨0xffd2, 16⟩, ⟨0xffd3, 16⟩,
   ⟨0xffd4, 16⟩, ⟨0xffd5, 16⟩, ⟨0xffd6, 16⟩, ⟨0xffd7, 16⟩, ⟨0xffd8, 16⟩, ⟨0x0000, 0⟩,
   ⟨0x0000, 0⟩, ⟨0x0000, 0⟩, ⟨0x0000, 0⟩, ⟨0x0000, 0⟩, ⟨0x0000, 0⟩, ⟨0x03fa, 10⟩, ⟨0xffd9, 16⟩,
   ⟨0xffda, 16⟩, ⟨0xffdb, 16⟩, ⟨0xffdc, 16⟩, ⟨0xffdd, 16⟩, ⟨0xffde, 16⟩, ⟨0xffdf, 16⟩,
   ⟨0xffe0, 16⟩, ⟨0xffe1, 16⟩, ⟨0x0000, 0⟩, ⟨0x0000, 0⟩, ⟨0x0000, 0⟩, ⟨0x0000, 0⟩, ⟨0x0000, 0⟩,
   ⟨0x0000, 0⟩, ⟨0x07f8, 11⟩, ⟨0xffe2, 16⟩, ⟨0xffe3, 16⟩, ⟨0xffe4, 16⟩, ⟨0xffe5, 16⟩,
   ⟨0xffe6, 16⟩, ⟨0xffe7, 16⟩, ⟨0xffe8, 16⟩, ⟨0xffe9, 16⟩, ⟨0xffea, 16⟩, ⟨0x0000, 0⟩,
   ⟨0x0000, 0⟩, ⟨0x0000, 0⟩, ⟨0x0000, 0⟩, ⟨0x0000, 0⟩, ⟨0x0000, 0⟩, ⟨0xffeb, 16⟩, ⟨0xffec, 16⟩,
   ⟨0xffed, 16⟩, ⟨0xffee, 16⟩, ⟨0xffef, 16⟩, ⟨0xfff0, 16⟩, ⟨0xfff1, 16⟩, ⟨0xfff2, 16⟩,
   ⟨0xfff3, 16⟩, ⟨0xfff4, 16⟩, ⟨0x0000, 0⟩, ⟨0x0000, 0⟩, ⟨0x0000, 0⟩, ⟨0x0000, 0⟩, ⟨0x0000, 0⟩,
   ⟨0x07f9, 11⟩, ⟨0xfff5, 16⟩, ⟨0xfff6, 16⟩, ⟨0xfff7, 16⟩, ⟨0xfff8, 16⟩, ⟨0xfff9, 16⟩,
   ⟨0xfffa, 16⟩, ⟨0xfffb, 16⟩, ⟨0xfffc, 16⟩, ⟨0xfffd, 16⟩, ⟨0xfffe, 16⟩, ⟨0x0000, 0⟩,
   ⟨0x0000, 0⟩, ⟨0x0000, 0⟩, ⟨0x0000, 0⟩, ⟨0x0000, 0⟩]

def lumACTableDenali : List HuffElem :=
  [⟨0x000a, 4⟩, ⟨0x0000, 2⟩, ⟨0x0001, 2⟩, ⟨0x0004, 3⟩, ⟨0x000b, 4⟩, ⟨0x001a, 5⟩, ⟨0x0078, 7⟩,
   ⟨0x00f8, 8⟩, ⟨0x03f6, 10⟩, ⟨0xff81, 16⟩, ⟨0xff82, 16⟩, ⟨0x0000, 0⟩, ⟨0x0000, 0⟩, ⟨0x0000, 0⟩,
   ⟨0x0000, 0⟩, ⟨0x0000, 0⟩, ⟨0x0000, 0⟩, ⟨0x000c, 4⟩, ⟨0x001b, 5⟩, ⟨0x0079, 7⟩, ⟨0x01f6, 9⟩,
   ⟨0x07f6, 11⟩, ⟨0xff83, 16⟩, ⟨0xff84, 16⟩, ⟨0xff85, 16⟩, ⟨0xff86, 16⟩, ⟨0xff87, 16⟩,
   ⟨0x0000, 0⟩, ⟨0x0000, 0⟩, ⟨0x0000, 0⟩, ⟨0x0000, 0⟩, ⟨0x0000, 0⟩, ⟨0x0000, 0⟩, ⟨0x001c, 5⟩,
   ⟨0x00f9, 8⟩, ⟨0x03f7, 10⟩, ⟨0x0ff4, 12⟩, ⟨0xff88, 16⟩, ⟨0xff89, 16⟩, ⟨0xff8a, 16⟩,
   ⟨0xff8b, 16⟩, ⟨0xff8c, 16⟩, ⟨0xff8d, 16⟩, ⟨0x0000, 0⟩, ⟨0x0000, 0⟩, ⟨0x0000, 0⟩, ⟨0x0000, 0⟩,
   ⟨0x0000, 0⟩, ⟨0x0000, 0⟩, ⟨0x003a, 6⟩, ⟨0x01f7, 9⟩, ⟨0x0ff5, 12⟩, ⟨0xff8e, 16⟩, ⟨0xff8f, 16⟩,
   ⟨0xff90, 16⟩, ⟨0xff91, 16⟩, ⟨0xff92, 16⟩, ⟨0xff93, 16⟩, ⟨0xff94, 16⟩, ⟨0x0000, 0⟩,
   ⟨0x0000, 0⟩, ⟨0x0000, 0⟩, ⟨0x0000, 0⟩, ⟨0x0000, 0⟩, ⟨0x0000, 0⟩, ⟨0x003b, 6⟩, ⟨0x03f8, 10⟩,
   ⟨0xff95, 16⟩, ⟨0xff96, 16⟩, ⟨0xff97, 16⟩, ⟨0xff98, 16⟩, ⟨0xff99, 16⟩, ⟨0xff9a, 16⟩,
   ⟨0xff9b, 16⟩, ⟨0xff9c, 16⟩, ⟨0x0000, 0⟩, ⟨0x0000, 0⟩, ⟨0x0000, 0⟩, ⟨0x0000, 0⟩, ⟨0x0000, 0⟩,
   ⟨0x0000, 0⟩, ⟨0x007a, 7⟩, ⟨0x07f7, 11⟩, ⟨0xff9d, 16⟩, ⟨0xff9e, 16⟩, ⟨0xff9f, 16⟩,
   ⟨0xffa0, 16⟩, ⟨0xffa1, 16⟩, ⟨0xffa2, 16⟩, ⟨0xffa3, 16⟩, ⟨0xffa4, 16⟩, ⟨0x0000, 0⟩,
   ⟨0x0000, 0⟩, ⟨0x0000, 0⟩, ⟨0x0000, 0⟩, ⟨0x0000, 0⟩, ⟨0x0000, 0⟩, ⟨0x007b, 7⟩, ⟨0x0ff6, 12⟩,
   ⟨0xffa5, 16⟩, ⟨0xffa6, 16⟩, ⟨0xffa7, 16⟩, ⟨0xffa8, 16⟩, ⟨0xffa9, 16⟩, ⟨0xffaa, 16⟩,
   ⟨0xffab, 16⟩, ⟨0xffac, 16⟩, ⟨0x0000, 0⟩, ⟨0x0000, 0⟩, ⟨0x0000, 0⟩, ⟨0x0000, 0⟩, ⟨0x0000, 0⟩,
   ⟨0x0000, 0⟩, ⟨0x00fa, 8⟩, ⟨0x0ff7, 12⟩, ⟨0xffad, 16⟩, ⟨0xffae, 16⟩, ⟨0xffaf, 16⟩,
   ⟨0xffb0, 16⟩, ⟨0xffb1, 16⟩, ⟨0xffb2, 16⟩, ⟨0xffb3, 16⟩, ⟨0xffb4, 16⟩, ⟨0x0000, 0⟩,
   ⟨0x0000, 0⟩, ⟨0x0000, 0⟩, ⟨0x0000, 0⟩, ⟨0x0000, 0⟩, ⟨0x0000, 0⟩, ⟨0x01f8, 9⟩, ⟨0xff80, 16⟩,
   ⟨0xffb5, 16⟩, ⟨0xffb6, 16⟩, ⟨0xffb7, 16⟩, ⟨0xffb8, 16⟩, ⟨0xffb9, 16⟩, ⟨0xffba, 16⟩,
   ⟨0xffbb, 16⟩, ⟨0xffbc, 16⟩, ⟨0x0000, 0⟩, ⟨0x0000, 0⟩, ⟨0x0000, 0⟩, ⟨0x0000, 0⟩, ⟨0x0000, 0⟩,
   ⟨0x0000, 0⟩, ⟨0x01f9, 9⟩, ⟨0xffbd, 16⟩, ⟨0xffbe, 16⟩, ⟨0xffbf, 16⟩, ⟨0xffc0, 16⟩,
   ⟨0xffc1, 16⟩, ⟨0xffc2, 16⟩, ⟨0xffc3, 16⟩, ⟨0xffc4, 16⟩, ⟨0xffc5, 16⟩, ⟨0x0000, 0⟩,
   ⟨0x0000, 0⟩, ⟨0x0000, 0⟩, ⟨0x0000, 0⟩, ⟨0x0000, 0⟩, ⟨0x0000, 0⟩, ⟨0x01fa, 9⟩, ⟨0xffc6, 16⟩,
   ⟨0xffc7, 16⟩, ⟨0xffc8, 16⟩, ⟨0xffc9, 16⟩, ⟨0xffca, 16⟩, ⟨0xffcb, 16⟩, ⟨0xffcc, 16⟩,
   ⟨0xffcd, 16⟩, ⟨0xffce, 16⟩, ⟨0x0000, 0⟩, ⟨0x0000, 0⟩, ⟨0x0000, 0⟩, ⟨0x0000, 0⟩, ⟨0x0000, 0⟩,
   ⟨0x0000, 0⟩, ⟨0x03f9, 10⟩, ⟨0xffcf, 16⟩, ⟨0xffd0, 16⟩, ⟨0xffd1, 16⟩, ⟨0xffd2, 16⟩,
   ⟨0xffd3, 16⟩, ⟨0xffd4, 16⟩, ⟨0xffd5, 16⟩, ⟨0xffd6, 16⟩, ⟨0xffd7, 16⟩, ⟨0x0000, 0⟩,
   ⟨0x0000, 0⟩, ⟨0x0000, 0⟩, ⟨0x0000, 0⟩, ⟨0x0000, 0⟩, ⟨0x0000, 0⟩, ⟨0x03fa, 10⟩, ⟨0xffd8, 16⟩,
   ⟨0xffd9, 16⟩, ⟨0xffda, 16⟩, ⟨0xffdb, 16⟩, ⟨0xffdc, 16⟩, ⟨0xffdd, 16⟩, ⟨0xffde, 16⟩,
   ⟨0xffdf, 16⟩, ⟨0xffe0, 16⟩, ⟨0x0000, 0⟩, ⟨0x0000, 0⟩, ⟨0x0000, 0⟩, ⟨0x0000, 0⟩, ⟨0x0000, 0⟩,
   ⟨0x0000, 0⟩, ⟨0x07f8, 11⟩, ⟨0xffe1, 16⟩, ⟨0xffe2, 16⟩, ⟨0xffe3, 16⟩, ⟨0xffe4, 16⟩,
   ⟨0xffe5, 16⟩, ⟨0xffe6, 16⟩, ⟨0xffe7, 16⟩, ⟨0xffe8, 16⟩, ⟨0xffe9, 16⟩, ⟨0x0000, 0⟩,
   ⟨0x0000, 0⟩, ⟨0x0000, 0⟩, ⟨0x0000, 0⟩, ⟨0x0000, 0⟩, ⟨0x0000, 0⟩, ⟨0xffea, 16⟩, ⟨0xffeb, 16⟩,
   ⟨0xffec, 16⟩, ⟨0xffed, 16⟩, ⟨0xffee, 16⟩, ⟨0xffef, 16⟩, ⟨0xfff0, 16⟩, ⟨0xfff1, 16⟩,
   ⟨0xfff2, 16⟩, ⟨0xfff3, 16⟩, ⟨0x0000, 0⟩, ⟨0x0000, 0⟩, ⟨0x0000, 0⟩, ⟨0x0000, 0⟩, ⟨0x0000, 0⟩,
   ⟨0x07f9, 11⟩, ⟨0xfff4, 16⟩, ⟨0xfff5, 16⟩, ⟨0xfff6, 16⟩, ⟨0xfff7, 16⟩, ⟨0xfff8, 16⟩,
   ⟨0xfff9, 16⟩, ⟨0xfffa, 16⟩, ⟨0xfffb, 16⟩, ⟨0xfffc, 16⟩, ⟨0xfffd, 16⟩, ⟨0x0000, 0⟩,
   ⟨0x0000, 0⟩, ⟨0x0000, 0⟩, ⟨0x0000, 0⟩, ⟨0x0000, 0⟩]

def chromDCTable : List HuffElem :=
  [⟨0x0000, 2⟩, ⟨0x0001, 2⟩, ⟨0x0002, 2⟩, ⟨0x0006, 3⟩, ⟨0x000e, 4⟩, ⟨0x001e, 5⟩, ⟨0x003e, 6⟩,
   ⟨0x007e, 7⟩, ⟨0x00fe, 8⟩, ⟨0x01fe, 9⟩, ⟨0x03fe, 10⟩, ⟨0x07fe, 11⟩, ⟨0x0000, 0⟩, ⟨0x0000, 0⟩,
   ⟨0x0000, 0⟩, ⟨0x0000, 0⟩, ⟨0x0000, 0⟩]

def chromACTable : List HuffElem :=
  [⟨0x0000, 2⟩, ⟨0x0001, 2⟩, ⟨0x0004, 3⟩, ⟨0x000a, 4⟩, ⟨0x0018, 5⟩, ⟨0x0019, 5⟩, ⟨0x0038, 6⟩,
   ⟨0x0078, 7⟩, ⟨0x01f4, 9⟩, ⟨0x03f6, 10⟩, ⟨0x0ff4, 12⟩, ⟨0x0000, 0⟩, ⟨0x0000, 0⟩, ⟨0x0000, 0⟩,
   ⟨0x0000, 0⟩, ⟨0x0000, 0⟩, ⟨0x0000, 0⟩, ⟨0x000b, 4⟩, ⟨0x0039, 6⟩, ⟨0x00f6, 8⟩, ⟨0x01f5, 9⟩,
   ⟨0x07f6, 11⟩, ⟨0x0ff5, 12⟩, ⟨0xff88, 16⟩, ⟨0xff89, 16⟩, ⟨0xff8a, 16⟩, ⟨0xff8b, 16⟩,
   ⟨0x0000, 0⟩, ⟨0x0000, 0⟩, ⟨0x0000, 0⟩, ⟨0x0000, 0⟩, ⟨0x0000, 0⟩, ⟨0x0000, 0⟩, ⟨0x001a, 5⟩,
   ⟨0x00f7, 8⟩, ⟨0x03f7, 10⟩, ⟨0x0ff6, 12⟩, ⟨0x7fc2, 15⟩, ⟨0xff8c, 16⟩, ⟨0xff8d, 16⟩,
   ⟨0xff8e, 16⟩, ⟨0xff8f, 16⟩, ⟨0xff90, 16⟩, ⟨0x0000, 0⟩, ⟨0x0000, 0⟩, ⟨0x0000, 0⟩, ⟨0x0000, 0⟩,
   ⟨0x0000, 0⟩, ⟨0x0000, 0⟩, ⟨0x001b, 5⟩, ⟨0x00f8, 8⟩, ⟨0x03f8, 10⟩, ⟨0x0ff7, 12⟩, ⟨0xff91, 16⟩,
   ⟨0xff92, 16⟩, ⟨0xff93, 16⟩, ⟨0xff94, 16⟩, ⟨0xff95, 16⟩, ⟨0xff96, 16⟩, ⟨0x0000, 0⟩,
   ⟨0x0000, 0⟩, ⟨0x0000, 0⟩, ⟨0x0000, 0⟩, ⟨0x0000, 0⟩, ⟨0x0000, 0⟩, ⟨0x003a, 6⟩, ⟨0x01f6, 9⟩,
   ⟨0xff97, 16⟩, ⟨0xff98, 16⟩, ⟨0xff99, 16⟩, ⟨0xff9a, 16⟩, ⟨0xff9b, 16⟩, ⟨0xff9c, 16⟩,
   ⟨0xff9d, 16⟩, ⟨0xff9e, 16⟩, ⟨0x0000, 0⟩, ⟨0x0000, 0⟩, ⟨0x0000, 0⟩, ⟨0x0000, 0⟩, ⟨0x0000, 0⟩,
   ⟨0x0000, 0⟩, ⟨0x003b, 6⟩, ⟨0x03f9, 10⟩, ⟨0xff9f, 16⟩, ⟨0xffa0, 16⟩, ⟨0xffa1, 16⟩,
   ⟨0xffa2, 16⟩, ⟨0xffa3, 16⟩, ⟨0xffa4, 16⟩, ⟨0xffa5, 16⟩, ⟨0xffa6, 16⟩, ⟨0x0000, 0⟩,
   ⟨0x0000, 0⟩, ⟨0x0000, 0⟩, ⟨0x0000, 0⟩, ⟨0x0000, 0⟩, ⟨0x0000, 0⟩, ⟨0x0079, 7⟩, ⟨0x07f7, 11⟩,
   ⟨0xffa7, 16⟩, ⟨0xffa8, 16⟩, ⟨0xffa9, 16⟩, ⟨0xffaa, 16⟩, ⟨0xffab, 16⟩, ⟨0xffac, 16⟩,
   ⟨0xffad, 16⟩, ⟨0xffae, 16⟩, ⟨0x0000, 0⟩, ⟨0x0000, 0⟩, ⟨0x0000, 0⟩, ⟨0x0000, 0⟩, ⟨0x0000, 0⟩,
   ⟨0x0000, 0⟩, ⟨0x007a, 7⟩, ⟨0x07f8, 11⟩, ⟨0xffaf, 16⟩, ⟨0xffb0, 16⟩, ⟨0xffb1, 16⟩,
   ⟨0xffb2, 16⟩, ⟨0xffb3, 16⟩, ⟨0xffb4, 16⟩, ⟨0xffb5, 16⟩, ⟨0xffb6, 16⟩, ⟨0x0000, 0⟩,
   ⟨0x0000, 0⟩, ⟨0x0000, 0⟩, ⟨0x0000, 0⟩, ⟨0x0000, 0⟩, ⟨0x0000, 0⟩, ⟨0x00f9, 8⟩, ⟨0xffb7, 16⟩,
   ⟨0xffb8, 16⟩, ⟨0xffb9, 16⟩, ⟨0xffba, 16⟩, ⟨0xffbb, 16⟩, ⟨0xffbc, 16⟩, ⟨0xffbd, 16⟩,
   ⟨0xffbe, 16⟩, ⟨0xffbf, 16⟩, ⟨0x0000, 0⟩, ⟨0x0000, 0⟩, ⟨0x0000, 0⟩, ⟨0x0000, 0⟩, ⟨0x0000, 0⟩,
   ⟨0x0000, 0⟩, ⟨0x01f7, 9⟩, ⟨0xffc0, 16⟩, ⟨0xffc1, 16⟩, ⟨0xffc2, 16⟩, ⟨0xffc3, 16⟩,
   ⟨0xffc4, 16⟩, ⟨0xffc5, 16⟩, ⟨0xffc6, 16⟩, ⟨0xffc7, 16⟩, ⟨0xffc8, 16⟩, ⟨0x0000, 0⟩,
   ⟨0x0000, 0⟩, ⟨0x0000, 0⟩, ⟨0x0000, 0⟩, ⟨0x0000, 0⟩, ⟨0x0000, 0⟩, ⟨0x01f8, 9⟩, ⟨0xffc9, 16⟩,
   ⟨0xffca, 16⟩, ⟨0xffcb, 16⟩, ⟨0xffcc, 16⟩, ⟨0xffcd, 16⟩, ⟨0xffce, 16⟩, ⟨0xffcf, 16⟩,
   ⟨0xffd0, 16⟩, ⟨0xffd1, 16⟩, ⟨0x0000, 0⟩, ⟨0x0000, 0⟩, ⟨0x0000, 0⟩, ⟨0x0000, 0⟩, ⟨0x0000, 0⟩,
   ⟨0x0000, 0⟩, ⟨0x01f9, 9⟩, ⟨0xffd2, 16⟩, ⟨0xffd3, 16⟩, ⟨0xffd4, 16⟩, ⟨0xffd5, 16⟩,
   ⟨0xffd6, 16⟩, ⟨0xffd7, 16⟩, ⟨0xffd8, 16⟩, ⟨0xffd9, 16⟩, ⟨0xffda, 16⟩, ⟨0x0000, 0⟩,
   ⟨0x0000, 0⟩, ⟨0x0000, 0⟩, ⟨0x0000, 0⟩, ⟨0x0000, 0⟩, ⟨0x0000, 0⟩, ⟨0x01fa, 9⟩, ⟨0xffdb, 16⟩,
   ⟨0xffdc, 16⟩, ⟨0xffdd, 16⟩, ⟨0xffde, 16⟩, ⟨0xffdf, 16⟩, ⟨0xffe0, 16⟩, ⟨0xffe1, 16⟩,
   ⟨0xffe2, 16⟩, ⟨0xffe3, 16⟩, ⟨0x0000, 0⟩, ⟨0x0000, 0⟩, ⟨0x0000, 0⟩, ⟨0x0000, 0⟩, ⟨0x0000, 0⟩,
   ⟨0x0000, 0⟩, ⟨0x07f9, 11⟩, ⟨0xffe4, 16⟩, ⟨0xffe5, 16⟩, ⟨0xffe6, 16⟩, ⟨0xffe7, 16⟩,
   ⟨0xffe8, 16⟩, ⟨0xffe9, 16⟩, ⟨0xffea, 16⟩, ⟨0xffeb, 16⟩, ⟨0xffec, 16⟩, ⟨0x0000, 0⟩,
   ⟨0x0000, 0⟩, ⟨0x0000, 0⟩, ⟨0x0000, 0⟩, ⟨0x0000, 0⟩, ⟨0x0000, 0⟩, ⟨0x3fe0, 14⟩, ⟨0xffed, 16⟩,
   ⟨0xffee, 16⟩, ⟨0xffef, 16⟩, ⟨0xfff0, 16⟩, ⟨0xfff1, 16⟩, ⟨0xfff2, 16⟩, ⟨0xfff3, 16⟩,
   ⟨0xfff4, 16⟩, ⟨0xfff5, 16⟩, ⟨0x0000, 0⟩, ⟨0x0000, 0⟩, ⟨0x0000, 0⟩, ⟨0x0000, 0⟩, ⟨0x0000, 0⟩,
   ⟨0x03fa, 10⟩, ⟨0x7fc3, 15⟩, ⟨0xfff6, 16⟩, ⟨0xfff7, 16⟩, ⟨0xfff8, 16⟩, ⟨0xfff9, 16⟩,
   ⟨0xfffa, 16⟩, ⟨0xfffb, 16⟩, ⟨0xfffc, 16⟩, ⟨0xfffd, 16⟩, ⟨0xfffe, 16⟩, ⟨0x0000, 0⟩,
   ⟨0x0000, 0⟩, ⟨0x0000, 0⟩, ⟨0x0000, 0⟩, ⟨0x0000, 0⟩]

end JpegEnc

namespace JpegDec

open JpegEnc

/-! ## The decoder's tables -/

abbrev dcTblIndexLen : Nat := 9
abbrev acTblIndexLen : Nat := 12

/-- `huffsize`: a size for each code. -/
def huffsize (counts : List UInt8) : List Nat :=
  (counts.zipIdx 1).flatMap fun (count, size) => List.replicate count.toNat size

/-- `huffcode`: codes of one size count up, a step in size shifts the next code. -/
def huffcode : Nat → Nat → List Nat → List Nat
  | _, _, [] => []
  | code, siz, size :: sizes =>
    let code := code <<< (size - siz)
    code % 2 ^ 16 :: huffcode (code + 1) size sizes

/-- The complete Huffman table: `huffsize`, `huffcode` and `huffval`. -/
def codes (counts huffval : List UInt8) : List (Elem Nat) :=
  let sizes := huffsize counts
  List.zipWith (fun (size, code) (value : UInt8) => ⟨size, code, value.toNat⟩)
    (sizes.zip (huffcode 0 (sizes.headD 0) sizes)) huffval

/-- `main_huff_elem_t` -/
structure MainHuffElem where
  size : Nat
  value : Nat

/-- `aux_huff_elem_t` -/
structure AuxHuffElem where
  code : Nat
  size : Nat
  value : Nat

/-- `huff_tbl_t` -/
structure HuffTbl where
  indexP : Nat → Nat
  mainP : List MainHuffElem
  auxP : List AuxHuffElem

/-- The entries of `index_p` that begin with the code. -/
def Covers (mainIxLen : Nat) (e : Elem Nat) (codePlusJunk : Nat) : Prop :=
  e.code <<< (mainIxLen - e.size) ≤ codePlusJunk ∧
    codePlusJunk ≤ e.code <<< (mainIxLen - e.size) + 2 ^ (mainIxLen - e.size) - 1

instance (mainIxLen : Nat) (e : Elem Nat) (codePlusJunk : Nat) :
    Decidable (Covers mainIxLen e codePlusJunk) :=
  inferInstanceAs (Decidable (_ ∧ _))

/-- The loop that fills `index_p`, a `BYTE` array. -/
def fillIndex (mainIxLen : Nat) : Nat → List (Elem Nat) → (Nat → Nat) → Nat → Nat
  | _, [], indexP => indexP
  | i, e :: es, indexP =>
    fillIndex mainIxLen (i + 1) es fun codePlusJunk =>
      if Covers mainIxLen e codePlusJunk then (i + 1) % 256 else indexP codePlusJunk

/-- An entry of `aux_p`. -/
def auxElem (e : Elem Nat) : AuxHuffElem := ⟨e.code <<< (16 - e.size) % 2 ^ 16, e.size, e.value⟩

def calcTable (counts huffval : List UInt8) (mainIxLen : Nat) : HuffTbl :=
  let es := codes counts huffval
  let short := es.takeWhile (·.size ≤ mainIxLen)
  let long := es.dropWhile (·.size ≤ mainIxLen)
  { indexP := fillIndex mainIxLen 0 short fun _ => 0
    mainP := ⟨0, 0⟩ :: short.map fun e => ⟨e.size, e.value⟩
    auxP := if long.isEmpty then [] else ⟨0, (long.length + 1) % 256, 0⟩ :: long.map auxElem }

/-- The binary search of `parse_aux_code`: the last two candidates. -/
def auxSearch (auxP : List AuxHuffElem) (code lo hi : Nat) : Nat × Nat :=
  if 1 < hi - lo then
    let mid := lo + (hi - lo) / 2
    if code < (auxP.getD mid ⟨0, 0, 0⟩).code then auxSearch auxP code lo mid
    else auxSearch auxP code mid hi
  else (lo, hi)
termination_by hi - lo

/-- A marker where `hit_marker` is `syntax_err`. -/
def orSyntaxErr {α : Type} : Except Stop α → Except Stop α
  | .error .hitMarker => .error .syntaxErr
  | x => x

def AuxHuffElem.Matches (e : AuxHuffElem) (code : Nat) : Prop :=
  code >>> (16 - e.size) = e.code >>> (16 - e.size)

instance (e : AuxHuffElem) (code : Nat) : Decidable (e.Matches code) :=
  inferInstanceAs (Decidable (_ = _))

def parseAuxCode (r : Reader) (auxP : List AuxHuffElem) : Except Stop (Nat × Reader) := do
  let (code, r) ← orSyntaxErr (readBitsLoad r 16)
  match auxP with
  | [] => .error .pastEnd
  | dummy :: _ =>
    -- `hi_p` is before `lo_p`: the first `mid_p` is far outside of the table
    if dummy.size < 2 then .error .pastEnd
    else
      let (lo, hi) := auxSearch auxP code 1 (dummy.size - 1)
      let loElem := auxP.getD lo ⟨0, 0, 0⟩
      let hiElem := auxP.getD hi ⟨0, 0, 0⟩
      if loElem.Matches code then return (loElem.value, readBitsAdvance r loElem.size)
      else if hiElem.Matches code then return (hiElem.value, readBitsAdvance r hiElem.size)
      else .error .syntaxErr

def decodeHuff (tbl : HuffTbl) (mainIxLen : Nat) (r : Reader) : Except Stop (Nat × Reader) := do
  let (code, r) ← readBitsLoad r mainIxLen
  let elem := tbl.mainP.getD (tbl.indexP code) ⟨0, 0⟩
  if elem.size = 0 then parseAuxCode r tbl.auxP
  else return (elem.value, readBitsAdvance r elem.size)

/-! ## The index -/

variable {es : List (Elem Nat)} {e : Elem Nat} {mainIxLen : Nat}

theorem covers_iff {window : Nat} (hsize : e.size ≤ mainIxLen) (hlen : mainIxLen ≤ 16) :
    Covers mainIxLen e (window >>> (16 - mainIxLen)) ↔ e.Prefixes 16 window := by
  have hpos := Nat.two_pow_pos (mainIxLen - e.size)
  have hdiv : window / 2 ^ (16 - e.size)
      = window >>> (16 - mainIxLen) / 2 ^ (mainIxLen - e.size) := by
    rw [Nat.shiftRight_eq_div_pow, Nat.div_div_eq_div_mul, ← Nat.pow_add,
      show 16 - mainIxLen + (mainIxLen - e.size) = 16 - e.size by lia]
  rw [Elem.Prefixes, hdiv, Covers, Nat.shiftLeft_eq]
  constructor
  · rintro ⟨hlow, hhigh⟩
    exact Nat.div_eq_of_lt_le hlow (by rw [Nat.succ_mul]; lia)
  · intro h
    have hparts := Nat.div_add_mod (window >>> (16 - mainIxLen)) (2 ^ (mainIxLen - e.size))
    have hmod := Nat.mod_lt (window >>> (16 - mainIxLen)) hpos
    rw [h, Nat.mul_comm] at hparts
    lia

theorem fillIndex_miss {c : Nat} (h : ∀ x ∈ es, ¬ Covers mainIxLen x c) (i : Nat)
    (indexP : Nat → Nat) : fillIndex mainIxLen i es indexP c = indexP c := by
  induction es generalizing i indexP with
  | nil => rfl
  | cons e es ih =>
    rw [fillIndex, ih fun x hx => h x (List.mem_cons_of_mem _ hx)]
    exact if_neg (h e List.mem_cons_self)

theorem fillIndex_hit {c : Nat} {front back : List (Elem Nat)} (he : Covers mainIxLen e c)
    (hback : ∀ x ∈ back, ¬ Covers mainIxLen x c) (i : Nat) (indexP : Nat → Nat) :
    fillIndex mainIxLen i (front ++ e :: back) indexP c = (i + front.length + 1) % 256 := by
  induction front generalizing i indexP with
  | nil =>
    rw [List.nil_append, fillIndex, fillIndex_miss hback]
    exact if_pos he
  | cons x front ih =>
    rw [List.cons_append, fillIndex, ih, List.length_cons]
    congr 1
    lia

/-! ## The search -/

theorem auxSearch_spec {auxP : List AuxHuffElem} {code lo hi : Nat} (target : Nat)
    (hkey : ∀ k, lo ≤ k → k ≤ hi → ((auxP.getD k ⟨0, 0, 0⟩).code ≤ code ↔ k ≤ target))
    (hlo : lo ≤ target) (hhi : target ≤ hi) :
    ((auxSearch auxP code lo hi).1 = target ∨ (auxSearch auxP code lo hi).2 = target) ∧
      lo ≤ (auxSearch auxP code lo hi).1 ∧ (auxSearch auxP code lo hi).1 ≤ target := by
  fun_induction auxSearch auxP code lo hi with
  | case1 lo hi hgap mid hless ih =>
    have hmid := hkey mid (by lia) (by lia)
    exact ih (fun k hk hk' => hkey k hk (by lia)) hlo (by lia)
  | case2 lo hi hgap mid hless ih =>
    have hmid := hkey mid (by lia) (by lia)
    obtain ⟨h₁, h₂, h₃⟩ := ih (fun k hk hk' => hkey k (by lia) hk') (by lia) hhi
    exact ⟨h₁, by lia, h₃⟩
  | case3 lo hi hgap =>
    refine ⟨?_, Nat.le_refl _, hlo⟩
    show lo = target ∨ hi = target
    lia

/-! ## Decoding a code -/

variable {r : Reader} {rest : List Bool} {m : UInt8} {t : List UInt8}

theorem prefixes_field (rest : List Bool) {lo : Nat} (hes : Chained 16 lo es) (he : e ∈ es) :
    e.Prefixes 16 (field 16 (e.bits ++ rest)) := by
  have hsize := (hes.bounds e he).1.2
  have hfield : field 16 (e.bits ++ rest)
      = ofBits (e.bits ++ (rest ++ List.replicate 16 false).take (16 - e.size)) := by
    rw [field, List.append_assoc, List.take_append, Elem.bits_length,
      List.take_of_length_le (by rw [Elem.bits_length]; exact hsize)]
  rw [hfield]
  refine Elem.prefixes_ofBits (Nat.lt_of_succ_lt (hes.code_lt he)) hsize ?_
  rw [List.length_append, Elem.bits_length, List.length_take, List.length_append,
    List.length_replicate, Nat.min_eq_left (by lia), Nat.add_sub_cancel' hsize]

theorem auxElem_code {lo : Nat} (hes : Chained 16 lo es) (he : e ∈ es) :
    (auxElem e).code = e.left 16 := by
  have hend := (hes.bounds e he).2
  have hpos : 0 < e.width 16 := Nat.two_pow_pos _
  show e.code <<< (16 - e.size) % 2 ^ 16 = _
  rw [Nat.shiftLeft_eq, Nat.mod_eq_of_lt]
  · rfl
  · show e.left 16 < 2 ^ 16
    omega

theorem matches_auxElem (window : Nat) {lo : Nat} (hes : Chained 16 lo es) (he : e ∈ es) :
    (auxElem e).Matches window ↔ e.Prefixes 16 window := by
  rw [AuxHuffElem.Matches, auxElem_code hes he]
  show window >>> (16 - e.size) = e.left 16 >>> (16 - e.size) ↔ _
  rw [Elem.left, Nat.shiftRight_eq_div_pow, Nat.shiftRight_eq_div_pow,
    Nat.mul_div_cancel _ (Nat.two_pow_pos _)]
  rfl

theorem getD_aux (dummy : AuxHuffElem) {k : Nat} (hk : k < es.length) :
    (dummy :: es.map auxElem).getD (k + 1) ⟨0, 0, 0⟩ = auxElem es[k] := by
  rw [List.getD_cons_succ, List.getD_eq_getElem _ _ (by rwa [List.length_map]),
    List.getElem_map]

theorem getD_aux_le_iff {lo k window : Nat} {front back : List (Elem Nat)} (dummy : AuxHuffElem)
    (hes : Chained 16 lo (front ++ e :: back)) (hbegins : e.Prefixes 16 window)
    (hpos : 1 ≤ k) (hk : k ≤ (front ++ e :: back).length) :
    (((dummy :: (front ++ e :: back).map auxElem).getD k ⟨0, 0, 0⟩).code ≤ window ↔
      k ≤ front.length + 1) := by
  obtain ⟨k, rfl⟩ : ∃ j, k = j + 1 := ⟨k - 1, by lia⟩
  obtain ⟨hlow, hhigh⟩ := Elem.prefixes_iff.mp hbegins
  obtain ⟨-, htail, hcross⟩ := List.pairwise_append.mp hes.pairwise
  rw [getD_aux dummy hk, auxElem_code hes (List.getElem_mem _)]
  rcases Nat.lt_trichotomy k front.length with hlt | heq | hgt
  · rw [List.getElem_append_left hlt]
    have hle := hcross _ (List.getElem_mem hlt) e List.mem_cons_self
    constructor
    · intro _
      lia
    · intro _
      lia
  · subst heq
    simp only [List.getElem_append_right (Nat.le_refl _), Nat.sub_self, List.getElem_cons_zero]
    exact ⟨fun _ => Nat.le_refl _, fun _ => hlow⟩
  · obtain ⟨j, rfl⟩ : ∃ j, k = front.length + (j + 1) := ⟨k - front.length - 1, by lia⟩
    simp only [List.getElem_append_right (Nat.le_add_right _ _), Nat.add_sub_cancel_left,
      List.getElem_cons_succ]
    have hj : j < back.length := by
      rw [List.length_append, List.length_cons] at hk
      lia
    have hle := (List.pairwise_cons.mp htail).1 _ (List.getElem_mem hj)
    constructor
    · intro h
      lia
    · intro h
      lia

theorem parseAuxCode_spec {lo : Nat} {front back : List (Elem Nat)} (hm : m ≠ 0)
    (h : r.Holds (0xff :: m :: t) (e.bits ++ rest)) (hes : Chained 16 lo (front ++ e :: back))
    (hlen : (front ++ e :: back).length < 255) :
    ∃ r', parseAuxCode r (⟨0, ((front ++ e :: back).length + 1) % 256, 0⟩
        :: (front ++ e :: back).map auxElem) = .ok (e.value, r') ∧
      r'.Holds (0xff :: m :: t) rest := by
  have he : e ∈ front ++ e :: back := List.mem_append_right _ List.mem_cons_self
  have hbegins := prefixes_field rest hes he
  obtain ⟨r', hload, hholds, hcached⟩ := readBitsLoad_holds hm h (Nat.le_refl 16)
    (Or.inr (List.mem_append_left _ (hes.false_mem_bits he)))
  have hadvance : (readBitsAdvance r' e.size).Holds (0xff :: m :: t) rest := by
    refine readBitsAdvance_holds hholds e.bits_length ?_
    have hsize := (hes.bounds e he).1.2
    rw [List.length_append, Elem.bits_length] at hcached
    lia
  refine ⟨readBitsAdvance r' e.size, ?_, hadvance⟩
  generalize hdummy : (⟨0, ((front ++ e :: back).length + 1) % 256, 0⟩ : AuxHuffElem) = dummy
  have hcount : dummy.size - 1 = (front ++ e :: back).length := by
    rw [← hdummy]
    show ((front ++ e :: back).length + 1) % 256 - 1 = _
    lia
  have hplace : front.length + 1 ≤ (front ++ e :: back).length := by
    rw [List.length_append, List.length_cons]
    lia
  obtain ⟨hfound, hlow, hhigh⟩ := auxSearch_spec (front.length + 1)
    (fun k hk hk' => getD_aux_le_iff dummy hes hbegins hk hk') (by lia) hplace
  have htarget : (dummy :: (front ++ e :: back).map auxElem).getD (front.length + 1) ⟨0, 0, 0⟩
      = auxElem e := by
    rw [getD_aux dummy (by lia)]
    simp
  have hmatch := (matches_auxElem _ hes he).mpr hbegins
  rw [parseAuxCode, hload]
  show (if dummy.size < 2 then _ else if _ then _ else _) = _
  rw [if_neg (show ¬ dummy.size < 2 by lia), hcount]
  by_cases hlo : (auxSearch (dummy :: (front ++ e :: back).map auxElem)
      (field 16 (e.bits ++ rest)) 1 (front ++ e :: back).length).1 = front.length + 1
  · rw [hlo, htarget, if_pos hmatch]
    rfl
  · -- the lower candidate stands before the code, and the window does not begin with it
    rw [hfound.resolve_left hlo, htarget]
    generalize (auxSearch (dummy :: (front ++ e :: back).map auxElem)
      (field 16 (e.bits ++ rest)) 1 (front ++ e :: back).length).1 = low at *
    obtain ⟨k, rfl⟩ : ∃ j, low = j + 1 := ⟨low - 1, by lia⟩
    have hk : k < front.length := by lia
    rw [getD_aux dummy (by lia), List.getElem_append_left hk]
    have hmem := List.getElem_mem hk
    have hno := (matches_auxElem (field 16 (e.bits ++ rest)) hes
      (List.mem_append_left _ hmem)).not.mpr ((hes.not_prefixes hbegins).1 _ hmem)
    rw [if_neg hno, if_pos hmatch]
    rfl

theorem decodeHuff_finds {lo : Nat} {counts huffval : List UInt8} (hm : m ≠ 0)
    (h : r.Holds (0xff :: m :: t) (e.bits ++ rest)) (hes : Chained 16 lo (codes counts huffval))
    (hfew : ((codes counts huffval).takeWhile (·.size ≤ mainIxLen)).length ≤ 255)
    (hlen : ((codes counts huffval).dropWhile (·.size ≤ mainIxLen)).length < 255)
    (he : e ∈ codes counts huffval) (hix : mainIxLen ≤ 16) :
    ∃ r', decodeHuff (calcTable counts huffval mainIxLen) mainIxLen r = .ok (e.value, r') ∧
      r'.Holds (0xff :: m :: t) rest := by
  have hbits := hes.bounds e he
  have hbegins := prefixes_field rest hes he
  obtain ⟨r', hload, hholds, hcached⟩ := readBitsLoad_holds hm h hix
    (Or.inr (List.mem_append_left _ (hes.false_mem_bits he)))
  have hsize : e.size ≠ 0 := Nat.ne_of_gt hbits.1.1
  generalize hcodes : codes counts huffval = es at *
  have hindex : (calcTable counts huffval mainIxLen).indexP
      = fillIndex mainIxLen 0 (es.takeWhile (·.size ≤ mainIxLen)) fun _ => 0 := by
    rw [← hcodes]
    rfl
  have hmain : (calcTable counts huffval mainIxLen).mainP
      = ⟨0, 0⟩ :: (es.takeWhile (·.size ≤ mainIxLen)).map fun x => ⟨x.size, x.value⟩ := by
    rw [← hcodes]
    rfl
  have haux : (calcTable counts huffval mainIxLen).auxP
      = if (es.dropWhile (·.size ≤ mainIxLen)).isEmpty then []
        else ⟨0, ((es.dropWhile (·.size ≤ mainIxLen)).length + 1) % 256, 0⟩
          :: (es.dropWhile (·.size ≤ mainIxLen)).map auxElem := by
    rw [← hcodes]
    rfl
  have hparts := List.takeWhile_append_dropWhile (p := fun x : Elem Nat => x.size ≤ mainIxLen)
    (l := es)
  have hshort : ∀ x ∈ es.takeWhile (·.size ≤ mainIxLen), x.size ≤ mainIxLen := fun x hx =>
    of_decide_eq_true (List.mem_takeWhile_imp (p := fun y : Elem Nat => y.size ≤ mainIxLen) hx)
  generalize es.takeWhile (·.size ≤ mainIxLen) = short at *
  generalize es.dropWhile (·.size ≤ mainIxLen) = long at *
  subst hparts
  rw [decodeHuff, hload]
  show ∃ r'', (if MainHuffElem.size _ = 0 then _ else _) = _ ∧ _
  rw [← field_shiftRight hix, hindex, hmain, haux]
  rcases List.mem_append.mp he with hmem | hmem
  · obtain ⟨front, back, rfl⟩ := List.append_of_mem hmem
    have hno := hes
    rw [List.append_assoc, List.cons_append] at hno
    have hback := (hno.not_prefixes hbegins).2
    have hentry : fillIndex mainIxLen 0 (front ++ e :: back) (fun _ => 0)
        (field 16 (e.bits ++ rest) >>> (16 - mainIxLen)) = front.length + 1 := by
      rw [fillIndex_hit ((covers_iff (hshort e hmem) hix).mpr hbegins) fun x hx => ?_]
      · rw [List.length_append, List.length_cons] at hfew
        lia
      · exact (covers_iff (hshort x (by simp [hx])) hix).not.mpr
          (hback x (List.mem_append_left _ hx))
    rw [hentry, List.getD_cons_succ, List.getD_eq_getElem _ _ (by simp)]
    simp only [List.map_append, List.map_cons, List.getElem_append_right, List.length_map,
      Nat.le_refl, Nat.sub_self, List.getElem_cons_zero]
    refine ⟨readBitsAdvance r' e.size, if_neg hsize, ?_⟩
    refine readBitsAdvance_holds hholds e.bits_length ?_
    have hfit := hshort e hmem
    rw [List.length_append, Elem.bits_length] at hcached
    lia
  · obtain ⟨front, back, rfl⟩ := List.append_of_mem hmem
    have hno := hes
    rw [← List.append_assoc] at hno
    have hfront := (hno.not_prefixes hbegins).1
    have hentry : fillIndex mainIxLen 0 short (fun _ => 0)
        (field 16 (e.bits ++ rest) >>> (16 - mainIxLen)) = 0 :=
      fillIndex_miss (fun x hx => (covers_iff (hshort x hx) hix).not.mpr
        (hfront x (List.mem_append_left _ hx))) 0 _
    obtain ⟨lo', hlong⟩ := hes.of_append
    obtain ⟨r'', haux, hrest⟩ := parseAuxCode_spec hm hholds hlong hlen
    rw [hentry, List.getD_cons_zero,
      if_neg (show ¬ (front ++ e :: back).isEmpty = true by simp)]
    exact ⟨r'', (if_pos rfl).trans haux, hrest⟩

theorem decodeHuff_spec {lo : Nat} {counts huffval : List UInt8} (hm : m ≠ 0)
    (h : r.Holds (0xff :: m :: t) (e.bits ++ rest)) (hes : Chained 16 lo (codes counts huffval))
    (hlen : (codes counts huffval).length < 255) (he : e ∈ codes counts huffval)
    (hix : mainIxLen ≤ 16) :
    ∃ r', decodeHuff (calcTable counts huffval mainIxLen) mainIxLen r = .ok (e.value, r') ∧
      r'.Holds (0xff :: m :: t) rest := by
  have hparts := congrArg List.length (List.takeWhile_append_dropWhile
    (p := fun x : Elem Nat => x.size ≤ mainIxLen) (l := codes counts huffval))
  rw [List.length_append] at hparts
  exact decodeHuff_finds hm h hes (by lia) (by lia) he hix

/-! ## Both sides' tables agree -/

def huffBits (huffman : List HuffElem) (value : Nat) : List Bool :=
  let elem := huffman.getD value ⟨0, 0⟩
  natBits elem.size elem.code

/-- The encoder's table for the `used` values, and the counts and values in the header. -/
structure Matched (huffman : List HuffElem) (counts huffval : List UInt8) (used : List Nat) :
    Prop where
  chained : Chained 16 0 (codes counts huffval)
  short : (codes counts huffval).length < 255
  agrees : ∀ e ∈ codes counts huffval, huffman.getD e.value ⟨0, 0⟩ = ⟨e.code, e.size⟩
  covers : ∀ value ∈ used, value ∈ (codes counts huffval).map (·.value)

def dcSymbols : List Nat := List.range 12

/-- The end of a block, a run of 16 zeroes, and a run with the size of the value behind it. -/
def acSymbols : List Nat :=
  0 :: 0xf0 :: (List.range 16).flatMap fun run => (List.range 10).map fun siz =>
    run * 16 + (siz + 1)

theorem lumDC_matched : Matched lumDCTable lumDCCounts lumDCValues dcSymbols where
  chained := by decide +kernel
  short := by decide +kernel
  agrees := by decide +kernel
  covers := by decide +kernel

theorem chromDC_matched : Matched chromDCTable chromDCCounts chromDCValues dcSymbols where
  chained := by decide +kernel
  short := by decide +kernel
  agrees := by decide +kernel
  covers := by decide +kernel

theorem lumAC_matched : Matched lumACTable lumACCounts lumACValues acSymbols where
  chained := by decide +kernel
  short := by decide +kernel
  agrees := by decide +kernel
  covers := by decide +kernel

theorem lumACDenali_matched :
    Matched lumACTableDenali lumACCountsDenali lumACValues acSymbols where
  chained := by decide +kernel
  short := by decide +kernel
  agrees := by decide +kernel
  covers := by decide +kernel

theorem chromAC_matched : Matched chromACTable chromACCounts chromACValues acSymbols where
  chained := by decide +kernel
  short := by decide +kernel
  agrees := by decide +kernel
  covers := by decide +kernel

variable {huffman : List HuffElem} {counts huffval : List UInt8} {used : List Nat} {value : Nat}

theorem Matched.elem (h : Matched huffman counts huffval used) (hv : value ∈ used) :
    ∃ e ∈ codes counts huffval, e.value = value ∧ huffman.getD value ⟨0, 0⟩ = ⟨e.code, e.size⟩ := by
  obtain ⟨e, he, rfl⟩ := List.mem_map.mp (h.covers value hv)
  exact ⟨e, he, rfl, h.agrees e he⟩

theorem Matched.fits (h : Matched huffman counts huffval used) (hv : value ∈ used) :
    (huffman.getD value ⟨0, 0⟩).size ≤ 16 ∧
      (huffman.getD value ⟨0, 0⟩).code < 2 ^ (huffman.getD value ⟨0, 0⟩).size := by
  obtain ⟨e, he, -, hentry⟩ := h.elem hv
  rw [hentry]
  exact ⟨(h.chained.bounds e he).1.2, Nat.lt_of_succ_lt (h.chained.code_lt he)⟩

theorem Matched.decodeHuff (h : Matched huffman counts huffval used) (hv : value ∈ used)
    (hm : m ≠ 0) (hr : r.Holds (0xff :: m :: t) (huffBits huffman value ++ rest))
    (hix : mainIxLen ≤ 16) :
    ∃ r', decodeHuff (calcTable counts huffval mainIxLen) mainIxLen r = .ok (value, r') ∧
      r'.Holds (0xff :: m :: t) rest := by
  obtain ⟨e, he, rfl, hentry⟩ := h.elem hv
  rw [huffBits, hentry] at hr
  exact decodeHuff_spec hm hr h.chained h.short he hix

end JpegDec

end Hplip.Ip
