namespace Funge

-- 64-bit words in two's complement: sums, differences and products wrap.
abbrev Number := Int64

namespace Number

def flag (holds : Bool) : Number := if holds then 1 else 0

def decimal (v : Number) : String := Int.repr v.toInt

end Number
end Funge
