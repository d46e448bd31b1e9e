import XMonitor.Json.Item
import XMonitor.Lib.Procedure

/-!
# Parsing strings

`parse_string` looks for the end of the string first, and counts the escape sequences on the way.
That gives the size of the output. Then it goes over the string again and writes the output. The
two passes need not agree about where the escape sequences are, since the second one takes any
four bytes behind `\u`. All the same it never reads behind the quotation mark that ends the
string and never writes behind the end of the output.
-/

namespace XMonitor.Json

open Lib Lib.Procedure

structure ParseBuffer where
  content : Bytes
  offset : Nat := 0
  depth : Nat := 0
  deriving Repr, DecidableEq

abbrev Parse (α : Type) := Procedure ParseBuffer α

/-- A read at an index of the content. -/
def load {σ : Type} (content : Bytes) (i : Nat) : Procedure σ UInt8 :=
  match content[i]? with
  | some c => pure c
  | none => fault

/-! ## The two passes -/

/-- The loop that looks for the end, on the bytes that are left. The end and the number of bytes
that are left out, or nothing if the string ends unexpectedly. -/
def findEnd (inputEnd skippedBytes : Nat) : Bytes → Option (Nat × Nat)
  | [] => none
  | c :: rest =>
    if c = quotationMark then some (inputEnd, skippedBytes)
    else if c = backslash then
      match rest with
      | [] => none
      | _ :: rest => findEnd (inputEnd + 2) (skippedBytes + 1) rest
    else findEnd (inputEnd + 1) skippedBytes rest

def hexValue (c : UInt8) : Option Nat :=
  if 48 ≤ c ∧ c ≤ 57 then some (c.toNat - 48)
  else if 65 ≤ c ∧ c ≤ 70 then some (10 + c.toNat - 65)
  else if 97 ≤ c ∧ c ≤ 102 then some (10 + c.toNat - 97)
  else none

/-- The loop of `parse_hex4` with `n` digits to go. An invalid digit makes the number zero. -/
def parseHexDigits {σ : Type} (content : Bytes) (h : Nat) : Nat → Nat → Procedure σ Nat
  | 0, _ => pure h
  | n + 1, input => do
    let c ← load content input
    match hexValue c with
    | none => pure 0
    | some v => parseHexDigits content (if n = 0 then h + v else (h + v) * 16) n (input + 1)

def parseHex4 {σ : Type} (content : Bytes) (input : Nat) : Procedure σ Nat :=
  parseHexDigits content 0 4 input

/-- The bytes that follow the first one, the last of them first. -/
def continuationBytes (codepoint : Nat) (bytes : Bytes) : Nat → Nat × Bytes
  | 0 => (codepoint, bytes)
  | n + 1 =>
    continuationBytes (codepoint >>> 6) (UInt8.ofNat ((codepoint ||| 0x80) &&& 0xBF) :: bytes) n

def encodeUtf8 (codepoint : Nat) : Option Bytes :=
  if codepoint < 0x80 then some [UInt8.ofNat (codepoint &&& 0x7F)]
  else if codepoint < 0x800 then
    let (first, bytes) := continuationBytes codepoint [] 1
    some (UInt8.ofNat ((first ||| 0xC0) &&& 0xFF) :: bytes)
  else if codepoint < 0x10000 then
    let (first, bytes) := continuationBytes codepoint [] 2
    some (UInt8.ofNat ((first ||| 0xE0) &&& 0xFF) :: bytes)
  else if codepoint ≤ 0x10FFFF then
    let (first, bytes) := continuationBytes codepoint [] 3
    some (UInt8.ofNat ((first ||| 0xF0) &&& 0xFF) :: bytes)
  else none

/-- The length of the sequence and the bytes that it stands for. -/
def utf16LiteralToUtf8 {σ : Type} (content : Bytes) (inputPointer inputEnd : Nat) :
    Procedure σ (Nat × Bytes) := do
  if inputEnd - inputPointer < 6 then
    fail
  else
    let firstCode ← parseHex4 content (inputPointer + 2)
    if 0xDC00 ≤ firstCode ∧ firstCode ≤ 0xDFFF then
      fail
    else if 0xD800 ≤ firstCode ∧ firstCode ≤ 0xDBFF then
      let secondSequence := inputPointer + 6
      if inputEnd - secondSequence < 6 then
        fail
      else
        let c₀ ← load content secondSequence
        let c₁ ← load content (secondSequence + 1)
        if c₀ ≠ backslash ∨ c₁ ≠ 117 then
          fail
        else
          let secondCode ← parseHex4 content (secondSequence + 2)
          if secondCode < 0xDC00 ∨ secondCode > 0xDFFF then
            fail
          else
            match encodeUtf8
              (0x10000 + (((firstCode &&& 0x3FF) <<< 10) ||| (secondCode &&& 0x3FF))) with
            | some bytes => pure (12, bytes)
            | none => fail
    else
      match encodeUtf8 firstCode with
      | some bytes => pure (6, bytes)
      | none => fail

/-- The pointers of the second pass. The output is what is in front of the output pointer. -/
structure StringState where
  inputPointer : Nat
  output : Bytes := []
  deriving Repr, DecidableEq

/-- Write through the output pointer, into an allocation of `size` bytes. -/
def write (size : Nat) (bytes : Bytes) : Procedure StringState Unit := fun s =>
  if s.output.length + bytes.length ≤ size then
    .ok () { s with output := s.output ++ bytes }
  else
    .fault

def advanceInput (n : Nat) : Procedure StringState Unit :=
  modify fun s => { s with inputPointer := s.inputPointer + n }

/-- The escape sequences of two bytes. -/
def simpleEscape (c : UInt8) : Option UInt8 :=
  if c = 98 then some 8
  else if c = 102 then some 12
  else if c = 110 then some 10
  else if c = 114 then some 13
  else if c = 116 then some 9
  else if c = quotationMark ∨ c = backslash ∨ c = 47 then some c
  else none

/-- One turn of the loop over the string literal. -/
def decodeNext (content : Bytes) (inputEnd size : Nat) : Procedure StringState Unit := do
  let s ← get
  let c ← load content s.inputPointer
  if c ≠ backslash then
    write size [c]
    advanceInput 1
  else if inputEnd - s.inputPointer < 1 then
    fail
  else
    let e ← load content (s.inputPointer + 1)
    match simpleEscape e with
    | some c =>
      write size [c]
      advanceInput 2
    | none =>
      if e = 117 then
        let (sequenceLength, bytes) ← utf16LiteralToUtf8 content s.inputPointer inputEnd
        write size bytes
        advanceInput sequenceLength
      else
        fail

/-- The loop over the string literal. Every turn goes on in the input, so `fuel` turns for as many
bytes are enough. -/
def decodeString (content : Bytes) (inputEnd size : Nat) : Nat → Procedure StringState Unit
  | 0 => fault
  | fuel + 1 => do
    let s ← get
    if s.inputPointer < inputEnd then
      decodeNext content inputEnd size
      decodeString content inputEnd size fuel
    else
      pure ()

def parseString : Parse Str := fun buffer =>
  let start := buffer.offset + 1
  match buffer.content[buffer.offset]? with
  | none => .fault
  | some c =>
    if c ≠ quotationMark then
      .fail { buffer with offset := start }
    else
      match findEnd start 0 (buffer.content.drop start) with
      | none => .fail { buffer with offset := start }
      | some (inputEnd, skippedBytes) =>
        let size := inputEnd - buffer.offset - skippedBytes + 1
        let decode := do
          decodeString buffer.content inputEnd size (inputEnd - start + 1)
          write size [0]
        match decode { inputPointer := start } with
        | .fault => .fault
        | .fail s => .fail { buffer with offset := s.inputPointer }
        | .ok () s => .ok (Str.ofBytes s.output) { buffer with offset := inputEnd + 1 }

end XMonitor.Json
