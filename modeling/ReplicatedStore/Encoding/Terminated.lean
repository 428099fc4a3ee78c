import ReplicatedStore.Encoding.Reader

/-!
Text that ends at a zero byte. A zero byte within is written `01 01` and a one `01 02`, so that the
terminator is the only bare zero and a shorter text comes before its extensions.
-/

namespace ReplicatedStore

namespace Terminated

def escape : Bytes → Bytes
  | [] => []
  | b :: rest =>
    if b = 0x00 then 0x01 :: 0x01 :: escape rest
    else if b = 0x01 then 0x01 :: 0x02 :: escape rest
    else b :: escape rest

def write (text : Bytes) : Bytes :=
  escape text ++ [0x00]

def read : Reader Bytes := go
where
  go : Bytes → EStateM.Result EncodingError Bytes Bytes
    | [] => .error (.truncated 1 0) []
    | [b] =>
      if b = 0x00 then .ok [] [] else .error (.truncated 1 0) []
    | b :: next :: rest =>
      if b = 0x00 then .ok [] (next :: rest)
      else if b = 0x01 then
        if next = 0x01 then push 0x00 (go rest)
        else if next = 0x02 then push 0x01 (go rest)
        else .error (.malformed s!"invalid string escape 0x01 0x{Bytes.hexByte next}") rest
      else push b (go (next :: rest))
  push (b : UInt8) : EStateM.Result EncodingError Bytes Bytes → EStateM.Result EncodingError Bytes Bytes
    | .ok text rest => .ok (b :: text) rest
    | .error e rest => .error e rest

end Terminated

end ReplicatedStore
