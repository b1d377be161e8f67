import Mvpmc.Cmyth.Number
import Mvpmc.Lib.Template

/-! `mysql_query.c`: a query is built from a template with marks for its parameters. Strings are the bytes
in front of their terminator. -/
namespace Mvpmc.Cmyth.Mysql
open Mvpmc.Lib

def ascii (s : String) : List UInt8 := s.toList.map fun c => UInt8.ofNat c.toNat

/-- The mark `?`. -/
def mark : UInt8 := 0x3F

/-- The data models that decide the width of `long`. -/
inductive Abi where
  | ilp32 | lp64
  deriving DecidableEq, Repr

def Abi.longBits : Abi → Nat
  | ilp32 => 32
  | lp64 => 64

def Abi.sizeofLong (abi : Abi) : Nat := abi.longBits / 8

def CMYTH_ULONG_STRLEN (abi : Abi) : Nat := abi.sizeofLong * 3 + 1
def CMYTH_LONG_STRLEN (abi : Abi) : Nat := CMYTH_ULONG_STRLEN abi + 1

/-- What a value is when it is stored in an `int`. -/
def cint (x : Int) : Int := x.bmod (2 ^ 32)

/-- The allocator, the connection to the database, and `mysql_real_escape_string`: what it writes for a
string, without the terminator. -/
structure Server where
  alloc : Int → Bool
  connection : Bool
  escape : List UInt8 → List UInt8

/-- `struct cmyth_mysql_query_s`. `sourcePos` is the text of `source` from `source_pos` on, `buf` the text in
front of the terminator in the buffer, `none` for NULL, so that its length is `buf_used`. -/
structure Query where
  source : List UInt8
  sourcePos : List UInt8
  buf : Option (List UInt8)
  bufSize : Int
  deriving DecidableEq

namespace Query

def bufUsed (q : Query) : Nat := (q.buf.getD []).length

/-- `source_len`. -/
def sourceLen (q : Query) : Int := cint q.source.length

/-- `cmyth_mysql_query_create`: `some none` for NULL. Here and below `none` is a write outside of the buffer. -/
def create (env : Server) (queryString : List UInt8) : Option (Option Query) :=
  let bufSize := cint (cint queryString.length * 2)
  if env.alloc bufSize then
    if 0 < bufSize then some (some ⟨queryString, queryString, some [], bufSize⟩) else none
  else some none

/-- `cmyth_mysql_query_reset`. -/
def reset (q : Query) : Query := { q with buf := q.buf.map fun _ => [], sourcePos := q.source }

/-- `query_buffer_check_len`. -/
def checkLen (env : Server) (len : Int) (q : Query) : Query × Int :=
  if cint (len + q.bufUsed) ≥ q.bufSize then
    let bufSize := cint (q.bufSize + if q.sourceLen > len then q.sourceLen else len)
    if env.alloc bufSize then ({ q with buf := some (q.buf.getD []), bufSize := bufSize }, 0)
    else (reset { q with buf := none, bufSize := bufSize }, -1)
  else (q, 0)

/-- The bytes and a terminator behind what is in the buffer. -/
def store (data : List UInt8) (q : Query) : Option Query :=
  match q.buf with
  | none => none
  | some text => if ((text ++ data).length : Int) < q.bufSize then some { q with buf := some (text ++ data) } else none

/-- `query_buffer_add`; a negative `len` is a wild `memcpy`. -/
def bufferAdd (env : Server) (buf : List UInt8) (q : Query) : Option (Query × Int) :=
  let len := cint buf.length
  let r := q.checkLen env len
  if r.2 < 0 then some r
  else if len < 0 then none
  else (r.1.store (buf.take len.toNat)).map fun q => (q, len)

/-- `query_buffer_add_str`. -/
def bufferAddStr (env : Server) (str : List UInt8) (q : Query) : Option (Query × Int) := q.bufferAdd env str

/-- `query_buffer_add_escape_str`. -/
def bufferAddEscapeStr (env : Server) (str : List UInt8) (q : Query) : Option (Query × Int) :=
  let srclen := cint str.length
  let r := q.checkLen env (cint (srclen * 2 + 1))
  if r.2 < 0 then some r
  else if env.connection = false then some (r.1, -1)
  else if srclen < 0 then none
  else
    let dest := env.escape (str.take srclen.toNat)
    (r.1.store dest).map fun q => (q, (dest.length : Int))

/-- `query_begin_next_param`. -/
def beginNextParam (env : Server) (q : Query) : Option (Query × Int) :=
  match Template.cut mark q.sourcePos with
  | none => some (q, -1)
  | some (front, rest) => (q.bufferAdd env front).map fun r => ({ r.1 with sourcePos := rest }, r.2)

/-- `ret = first; if (ret < 0) return ret; return next;` -/
def andThen (first next : Query → Option (Query × Int)) (q : Query) : Option (Query × Int) :=
  match first q with
  | none => none
  | some r => if r.2 < 0 then some r else next r.1

/-- `sprintf` into a buffer of `size` bytes. -/
def sprintf (size : Nat) (text : List UInt8) : Option (List UInt8) := if text.length < size then some text else none

/-- `query_buffer_add_long`. -/
def bufferAddLong {abi : Abi} (env : Server) (param : BitVec abi.longBits) (q : Query) : Option (Query × Int) :=
  match sprintf (CMYTH_LONG_STRLEN abi) (longText param.toInt) with
  | none => none
  | some buf => q.bufferAddStr env buf

/-- `query_buffer_add_ulong`: the `long` that it is given is printed with `%lu`. -/
def bufferAddUlong {abi : Abi} (env : Server) (param : BitVec abi.longBits) (q : Query) : Option (Query × Int) :=
  match sprintf (CMYTH_ULONG_STRLEN abi) (Decimal.text param.toNat) with
  | none => none
  | some buf => q.bufferAddStr env buf

/-- `cmyth_mysql_query_param_long`. -/
def paramLong {abi : Abi} (env : Server) (param : BitVec abi.longBits) : Query → Option (Query × Int) :=
  andThen (beginNextParam env) (bufferAddLong env param)

/-- `cmyth_mysql_query_param_ulong`. -/
def paramUlong {abi : Abi} (env : Server) (param : BitVec abi.longBits) : Query → Option (Query × Int) :=
  andThen (beginNextParam env) (bufferAddUlong env param)

/-- `cmyth_mysql_query_param_int`. -/
def paramInt (abi : Abi) (env : Server) (param : BitVec 32) : Query → Option (Query × Int) :=
  @paramLong abi env (param.signExtend abi.longBits)

/-- `cmyth_mysql_query_param_uint`, which takes its parameter as an `int`. -/
def paramUint (abi : Abi) (env : Server) (param : BitVec 32) : Query → Option (Query × Int) :=
  @paramUlong abi env (param.signExtend abi.longBits)

/-- `cmyth_mysql_query_param_unixtime`. -/
def paramUnixtime {abi : Abi} (env : Server) (param : BitVec abi.longBits) : Query → Option (Query × Int) :=
  andThen (beginNextParam env) <| andThen (bufferAddStr env (ascii "FROM_UNIXTIME(")) <|
    andThen (bufferAddLong env param) (bufferAddStr env (ascii ")"))

/-- `cmyth_mysql_query_param_str`. -/
def paramStr (env : Server) (param : Option (List UInt8)) : Query → Option (Query × Int) :=
  andThen (beginNextParam env) <|
    match param with
    | none => bufferAddStr env (ascii "NULL")
    | some str => andThen (bufferAddStr env (ascii "'")) <| andThen (bufferAddEscapeStr env str)
      (bufferAddStr env (ascii "'"))

/-- `cmyth_mysql_query_string`. -/
def string (env : Server) (q : Query) : Option (Query × Option (List UInt8)) :=
  if mark ∈ q.sourcePos then some (q, none)
  else
    match q.bufferAddStr env q.sourcePos with
    | none => none
    | some r => if r.2 < 0 then some (r.1, none) else some ({ r.1 with sourcePos := [] }, r.1.buf)

end Query

/-- The parameters, with the types of the C functions that take them. An `unsigned int` has the bits of the
`int` that is passed. -/
inductive Param (abi : Abi) where
  | long (v : BitVec abi.longBits)
  | ulong (v : BitVec abi.longBits)
  | int (v : BitVec 32)
  | uint (v : BitVec 32)
  | unixtime (v : BitVec abi.longBits)
  | str (s : Option (List UInt8))

inductive Call (abi : Abi) where
  | param (p : Param abi)
  | string

/-- What a caller sees: whether a parameter was taken, and the text. -/
inductive Answer where
  | param (ok : Bool)
  | string (text : Option (List UInt8))
  deriving DecidableEq

namespace Query
variable {abi : Abi}

def param (env : Server) : Param abi → Query → Option (Query × Int)
  | .long v => paramLong env v
  | .ulong v => paramUlong env v
  | .int v => paramInt abi env v
  | .uint v => paramUint abi env v
  | .unixtime v => paramUnixtime env v
  | .str s => paramStr env s

def call (env : Server) (q : Query) : Call abi → Option (Query × Answer)
  | .param p => (q.param env p).map fun r => (r.1, .param (decide (0 ≤ r.2)))
  | .string => (q.string env).map fun r => (r.1, .string r.2)

/-- The query after some calls. -/
def calls (env : Server) (q : Query) (cs : List (Call abi)) : Option Query :=
  cs.foldlM (fun q c => (q.call env c).map Prod.fst) q

end Query

end Mvpmc.Cmyth.Mysql
