import Mathlib.Tactic.Common

/-! The table sizes of `zhash_primes.inc`, as a 64-bit build has them. -/

namespace Czmq

/-- `primes []`: five sizes below each power of two from `2^4` to `2^63`. -/
def primes : List Nat := [
    3, 5, 7, 11, 13,
    17, 19, 23, 29, 31,
    43, 47, 53, 59, 61,
    103, 107, 109, 113, 127,
    229, 233, 239, 241, 251,
    487, 491, 499, 503, 509,
    997, 1009, 1013, 1019, 1021,
    2011, 2017, 2027, 2029, 2039,
    4057, 4073, 4079, 4091, 4093,
    8161, 8167, 8171, 8179, 8191,
    16349, 16361, 16363, 16369, 16381,
    32707, 32713, 32717, 32719, 32749,
    65449, 65479, 65497, 65519, 65521,
    131023, 131041, 131059, 131063, 131071,
    262111, 262121, 262127, 262133, 262139,
    524243, 524257, 524261, 524269, 524287,
    1048517, 1048549, 1048559, 1048571, 1048573,
    2097091, 2097097, 2097131, 2097133, 2097143,
    4194247, 4194271, 4194277, 4194287, 4194301,
    8388547, 8388571, 8388581, 8388587, 8388593,
    16777141, 16777153, 16777183, 16777199, 16777213,
    33554341, 33554347, 33554371, 33554383, 33554393,
    67108763, 67108777, 67108819, 67108837, 67108859,
    134217593, 134217613, 134217617, 134217649, 134217689,
    268435331, 268435337, 268435361, 268435367, 268435399,
    536870839, 536870849, 536870869, 536870879, 536870909,
    1073741719, 1073741723, 1073741741, 1073741783, 1073741789,
    2147483563, 2147483579, 2147483587, 2147483629, 2147483647,
    4294967197, 4294967231, 4294967279, 4294967291, 4294967295,
    8589934581, 8589934585, 8589934587, 8589934589, 8589934591,
    17179869175, 17179869177, 17179869179, 17179869181, 17179869183,
    34359738359, 34359738361, 34359738363, 34359738365, 34359738367,
    68719476725, 68719476727, 68719476729, 68719476733, 68719476735,
    137438953463, 137438953465, 137438953467, 137438953469, 137438953471,
    274877906935, 274877906937, 274877906939, 274877906941, 274877906943,
    549755813877, 549755813879, 549755813883, 549755813885, 549755813887,
    1099511627767, 1099511627769, 1099511627771, 1099511627773, 1099511627775,
    2199023255543, 2199023255545, 2199023255547, 2199023255549, 2199023255551,
    4398046511095, 4398046511097, 4398046511099, 4398046511101, 4398046511103,
    8796093022199, 8796093022201, 8796093022203, 8796093022205, 8796093022207,
    17592186044407, 17592186044409, 17592186044411, 17592186044413, 17592186044415,
    35184372088823, 35184372088825, 35184372088827, 35184372088829, 35184372088831,
    70368744177655, 70368744177657, 70368744177659, 70368744177661, 70368744177663,
    140737488355319, 140737488355321, 140737488355323, 140737488355325, 140737488355327,
    281474976710647, 281474976710649, 281474976710651, 281474976710653, 281474976710655,
    562949953421303, 562949953421305, 562949953421307, 562949953421309, 562949953421311,
    1125899906842615, 1125899906842617, 1125899906842619, 1125899906842621, 1125899906842623,
    2251799813685239, 2251799813685241, 2251799813685243, 2251799813685245, 2251799813685247,
    4503599627370487, 4503599627370489, 4503599627370491, 4503599627370493, 4503599627370495,
    9007199254740983, 9007199254740985, 9007199254740987, 9007199254740989, 9007199254740991,
    18014398509481975, 18014398509481977, 18014398509481979, 18014398509481981, 18014398509481983,
    36028797018963959, 36028797018963961, 36028797018963963, 36028797018963965, 36028797018963967,
    72057594037927925, 72057594037927927, 72057594037927929, 72057594037927933, 72057594037927935,
    144115188075855863, 144115188075855865, 144115188075855867, 144115188075855869, 144115188075855871,
    288230376151711735, 288230376151711737, 288230376151711739, 288230376151711741, 288230376151711743,
    576460752303423479, 576460752303423481, 576460752303423483, 576460752303423485, 576460752303423487,
    1152921504606846967, 1152921504606846969, 1152921504606846971, 1152921504606846973, 1152921504606846975,
    2305843009213693941, 2305843009213693943, 2305843009213693945, 2305843009213693947, 2305843009213693949,
    4611686018427387895, 4611686018427387897, 4611686018427387899, 4611686018427387901, 4611686018427387903,
    9223372036854775799, 9223372036854775801, 9223372036854775803, 9223372036854775805, 9223372036854775807]

def sizeofPrimes : Nat := 8 * primes.length

lemma primes_length : primes.length = 300 := by decide +kernel

lemma primes_ge_three : ∀ p ∈ primes, 3 ≤ p := by decide +kernel

end Czmq
