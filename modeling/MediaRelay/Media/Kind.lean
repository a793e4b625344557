import MediaRelay.Fault
import MediaRelay.Octets
import MediaRelay.Text.Blank

-- The relay forwards four kinds of media: FLV, MPEG transport streams, Ogg (Theora) and plain text.
-- The kind decides how the input is cut into units, the HTTP content type, and the header a client
-- receives before the first unit while no input has supplied one.

namespace MediaRelay

inductive MediaKind
  | flv
  | mpegts
  | theora
  | text
deriving DecidableEq, Repr, Inhabited

namespace MediaKind

-- The header that FLV clients receive before the input's own header is known: an FLV file header
-- announcing audio and video, and the first previous-tag-size field.
def flvDefaultHeader : Octets :=
  [0x46, 0x4C, 0x56, 0x01, 0x05, 0x00, 0x00, 0x00, 0x09, 0x00, 0x00, 0x00, 0x00]

def name : MediaKind → String
  | flv => "flv"
  | mpegts => "mpegts"
  | theora => "theora"
  | text => "txt"

def contentType : MediaKind → String
  | flv => "application/flash-video"
  | mpegts => "video/mp2t"
  | theora => "application/ogg"
  | text => "text/plain"

def initialHeader : MediaKind → Octets
  | flv => flvDefaultHeader
  | _ => []

def ofNormalName? : String → Option MediaKind
  | "flv" => some flv
  | "mpegts" | "ts" => some mpegts
  | "theora" | "ogg" => some theora
  | "txt" | "text" => some text
  | _ => none

-- The kind a name denotes; an unknown name is refused with the name as given.
def parse (s : String) : Except Fault MediaKind :=
  match ofNormalName? (Text.foldName s) with
  | some k => .ok k
  | none => .error (.unsupportedMedia s)

theorem ofNormalName?_name (k : MediaKind) : ofNormalName? k.name = some k := by
  cases k <;> rfl

example : (parse " Theora ").toOption = some theora ∧ (parse "TS").toOption = some mpegts := by
  decide +kernel

end MediaKind

end MediaRelay
