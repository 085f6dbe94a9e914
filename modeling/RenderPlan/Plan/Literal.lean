/-!
Values of a plan that are chosen from a fixed set: texel formats, draw modes and depth comparisons.
Each is written by one of the literals of its set, compared whole and with regard to case; a draw
mode and a depth comparison may have more than one spelling. The name of a value is what it is
written as in data.
-/
namespace RenderPlan

inductive Channel where
  | float32 | float16 | unsigned8 | signed8
  deriving DecidableEq, Repr

inductive ChannelCount where
  | one | two | three | four
  deriving DecidableEq, Repr

/-- The layout of one texel, or none where a texture does not say. -/
inductive TexelFormat where
  | unspecified
  | packed (channel : Channel) (count : ChannelCount)
  deriving DecidableEq, Repr

/-- What a pass draws. -/
inductive DrawMode where
  | nothing | opaqueGeometry | quad
  deriving DecidableEq, Repr

/-- The comparison that lets a fragment pass. -/
inductive DepthTest where
  | never | less | equal | lessEqual | greater | notEqual | greaterEqual | always
  deriving DecidableEq, Repr

def Channel.name : Channel → String
  | .float32 => "f32"
  | .float16 => "f16"
  | .unsigned8 => "u8"
  | .signed8 => "s8"

def Channel.bytes : Channel → Nat
  | .float32 => 4
  | .float16 => 2
  | .unsigned8 => 1
  | .signed8 => 1

def Channel.all : List Channel := [.float32, .float16, .unsigned8, .signed8]

def ChannelCount.toNat : ChannelCount → Nat
  | .one => 1
  | .two => 2
  | .three => 3
  | .four => 4

def ChannelCount.digit : ChannelCount → String
  | .one => "1"
  | .two => "2"
  | .three => "3"
  | .four => "4"

def ChannelCount.all : List ChannelCount := [.one, .two, .three, .four]

namespace TexelFormat

def all : List TexelFormat :=
  unspecified :: Channel.all.flatMap fun c => ChannelCount.all.map (packed c)

def name : TexelFormat → String
  | unspecified => "none"
  | packed c n => c.name ++ "x" ++ n.digit

def channels : TexelFormat → Nat
  | unspecified => 0
  | packed _ n => n.toNat

/-- The bytes of one texel. -/
def bytes : TexelFormat → Nat
  | unspecified => 0
  | packed c n => c.bytes * n.toNat

def ofText? (text : String) : Option TexelFormat := all.find? fun f => f.name = text

theorem mem_all (f : TexelFormat) : f ∈ all := by
  cases f with
  | unspecified => decide
  | packed c n => cases c <;> cases n <;> decide

end TexelFormat

namespace DrawMode

def all : List DrawMode := [nothing, opaqueGeometry, quad]

def name : DrawMode → String
  | nothing => "none"
  | opaqueGeometry => "opaque_geometry"
  | quad => "quad"

/-- The texts that stand for a draw mode in a description. -/
def spellings : DrawMode → List String
  | nothing => ["none"]
  | opaqueGeometry => ["opaque geometry", "opaque_geometry"]
  | quad => ["quad"]

def ofText? (text : String) : Option DrawMode := all.find? fun m => m.spellings.contains text

theorem mem_all (m : DrawMode) : m ∈ all := by cases m <;> decide

end DrawMode

namespace DepthTest

def all : List DepthTest :=
  [never, less, equal, lessEqual, greater, notEqual, greaterEqual, always]

def name : DepthTest → String
  | never => "never"
  | less => "less"
  | equal => "equal"
  | lessEqual => "less_equal"
  | greater => "greater"
  | notEqual => "not_equal"
  | greaterEqual => "greater_equal"
  | always => "always"

/-- The texts that stand for a depth comparison in a description. -/
def spellings : DepthTest → List String
  | never => ["never"]
  | less => ["less"]
  | equal => ["equal"]
  | lessEqual => ["lequal", "less equal"]
  | greater => ["greater"]
  | notEqual => ["notequal", "not equal"]
  | greaterEqual => ["gequal", "greater equal"]
  | always => ["always"]

def ofText? (text : String) : Option DepthTest := all.find? fun t => t.spellings.contains text

theorem mem_all (t : DepthTest) : t ∈ all := by cases t <;> decide

end DepthTest

/-- The sets of literals, as a message names them. -/
inductive LiteralKind where
  | texelFormat | drawMode | depthTest
  deriving DecidableEq, Repr

def LiteralKind.name : LiteralKind → String
  | .texelFormat => "texture format"
  | .drawMode => "draw mode"
  | .depthTest => "depth test"

/-- The message for a text that is no literal of its set. -/
def LiteralKind.refusal (kind : LiteralKind) (text : String) : String :=
  "unrecognized " ++ kind.name ++ " `" ++ text ++ "`"

end RenderPlan
