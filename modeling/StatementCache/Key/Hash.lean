import StatementCache.Text.Bytes
import StatementCache.Text.Utf8
import StatementCache.Value.Basic

/-! The 32-bit hash of a key element: a keyed 64-bit mixer over folded products, started from fixed
seeds, so that an element hashes alike in every key. -/
namespace StatementCache.Hash

/-- The mixer's running word; its other words never change. -/
abbrev Mixer := UInt64

def pad : UInt64 := 0x243f6a8885a308d3 ^^^ 0x452821e638d01377
def start : Mixer := 0x13198a2e03707344 ^^^ 0xbe5466cf34e90c6c
def extraLow : UInt64 := 0xa4093822299f31d0 ^^^ 0xc0ac29b7c97c50dd
def extraHigh : UInt64 := 0x082efa98ec4e6c89 ^^^ 0x3f84d5b5b5470917
def multiple : UInt64 := 6364136223846793005

def rotateLeft (x : UInt64) (distance : UInt64) : UInt64 :=
  (x <<< distance) ||| (x >>> ((64 - distance) % 64))

def fold (a b : UInt64) : UInt64 :=
  let product := a.toNat * b.toNat
  UInt64.ofNat product ^^^ UInt64.ofNat (product / UInt64.size)

def number (m : Mixer) (x : UInt64) : Mixer := fold (x ^^^ m) multiple

def pair (m : Mixer) (low high : UInt64) : Mixer :=
  rotateLeft ((m + pad) ^^^ fold (low ^^^ extraLow) (high ^^^ extraHigh)) 23

def word (bytes : List UInt8) : UInt64 := UInt64.ofNat (Text.ofLittleEndian bytes)

def block (m : Mixer) (bytes : List UInt8) : Mixer :=
  pair m (word (bytes.take 8)) (word ((bytes.drop 8).take 8))

def blocks : Nat → Mixer → List UInt8 → Mixer
  | 0, m, _ => m
  | fuel + 1, m, bytes =>
    if 16 < bytes.length then blocks fuel (block m bytes) (bytes.drop 16) else m

/-- A byte string: its length, then its content, the last words first when it is long. -/
def content (m : Mixer) (bytes : List UInt8) : Mixer :=
  let n := bytes.length
  let m := (m + UInt64.ofNat n) * multiple
  let last (k : Nat) := bytes.drop (n - k)
  if 16 < n then blocks n (block m (last 16)) bytes
  else if 8 < n then pair m (word (bytes.take 8)) (word (last 8))
  else if 4 ≤ n then pair m (word (bytes.take 4)) (word (last 4))
  else if 2 ≤ n then pair m (word (bytes.take 2)) (word (last 1))
  else pair m (word bytes) (word bytes)

def finish (m : Mixer) : UInt64 := rotateLeft (fold m pad) (m % 64)

/-- Each kind of scalar starts with a tag of its own; null has a constant hash. -/
def scalar : Scalar → UInt32
  | .null => 1
  | .integer n => shorten (number (number start 1) n.toUInt64)
  | .float x => shorten (number (number start 2) x.bits)
  | .bool b => shorten (number (number start 3) b.toUInt64)
  | .text s => shorten (number (content (number start 4) (Text.utf8 s)) 0xff)
  | .bytes b => shorten (content (number (number start 5) (UInt64.ofNat b.length)) b)
  | .timestamp t => shorten (number (number start 6) t.toUInt64)
where
  shorten (m : Mixer) : UInt32 :=
    let h := finish m
    (h ^^^ (h >>> 32)).toUInt32

end StatementCache.Hash
