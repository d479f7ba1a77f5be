import ShaderPipeline.Text.Utf8

namespace ShaderPipeline.Words

def bytesOfWord (w : UInt32) : Bytes :=
  [w.toUInt8, (w >>> 8).toUInt8, (w >>> 16).toUInt8, (w >>> 24).toUInt8]

def wordOfBytes (a b c d : UInt8) : UInt32 :=
  a.toUInt32 ||| (b.toUInt32 <<< 8) ||| (c.toUInt32 <<< 16) ||| (d.toUInt32 <<< 24)

def encode (ws : List UInt32) : Bytes :=
  ws.flatMap bytesOfWord

def decode? : Bytes → Option (List UInt32)
  | [] => some []
  | a :: b :: c :: d :: rest => (decode? rest).map (wordOfBytes a b c d :: ·)
  | _ => none

end ShaderPipeline.Words
