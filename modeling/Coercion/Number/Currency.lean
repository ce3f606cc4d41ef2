namespace Coercion

/-- The ranges of the Unicode category Currency Symbol. -/
def currencyRanges : List (Nat × Nat) :=
  [(0x24, 0x24), (0xA2, 0xA5), (0x58F, 0x58F), (0x60B, 0x60B), (0x7FE, 0x7FF), (0x9F2, 0x9F3),
    (0x9FB, 0x9FB), (0xAF1, 0xAF1), (0xBF9, 0xBF9), (0xE3F, 0xE3F), (0x17DB, 0x17DB),
    (0x20A0, 0x20C0), (0xA838, 0xA838), (0xFDFC, 0xFDFC), (0xFE69, 0xFE69), (0xFF04, 0xFF04),
    (0xFFE0, 0xFFE1), (0xFFE5, 0xFFE6), (0x11FDD, 0x11FE0), (0x1E2FF, 0x1E2FF),
    (0x1ECB0, 0x1ECB0)]

def isCurrencySymbol (c : Char) : Bool :=
  currencyRanges.any fun (low, high) => low ≤ c.toNat && c.toNat ≤ high

end Coercion
