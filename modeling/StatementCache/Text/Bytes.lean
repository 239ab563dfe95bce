/-! Bytes as hexadecimal text and as little-endian numbers. -/
namespace StatementCache.Text

def hex (bytes : List UInt8) : String :=
  String.ofList (bytes.flatMap fun b => [Nat.digitChar (b.toNat / 16), Nat.digitChar (b.toNat % 16)])

def ofLittleEndian : List UInt8 → Nat
  | [] => 0
  | b :: rest => b.toNat + 256 * ofLittleEndian rest

def toLittleEndian : Nat → Nat → List UInt8
  | 0, _ => []
  | count + 1, n => UInt8.ofNat n :: toLittleEndian count (n / 256)

@[simp] theorem length_toLittleEndian (count n : Nat) : (toLittleEndian count n).length = count := by
  induction count generalizing n with
  | zero => rfl
  | succ count ih => simp [toLittleEndian, ih]

theorem ofLittleEndian_toLittleEndian (count n : Nat) :
    ofLittleEndian (toLittleEndian count n) = n % Nat.pow 256 count := by
  induction count generalizing n with
  | zero => simp [toLittleEndian, ofLittleEndian, Nat.mod_one]
  | succ count ih =>
    have byte : (UInt8.ofNat n).toNat = n % 256 := UInt8.toNat_ofNat
    have step : Nat.pow 256 (count + 1) = 256 * Nat.pow 256 count := Nat.mul_comm _ _
    rw [toLittleEndian, ofLittleEndian, ih, byte, step, Nat.mod_mul]

def hex64 (n : UInt64) : String := hex (toLittleEndian 8 n.toNat).reverse

end StatementCache.Text
