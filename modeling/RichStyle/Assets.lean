import RichStyle.Table

/-!
# Assets

Declarations that have no plain form are kept beside the sheet: for each kind of asset a table from
selectors to tables from properties to values.
-/

namespace RichStyle

inductive AssetKind where
  | audio
  | texture
  | material
deriving DecidableEq

/-- The bindings of one kind: selector, property, value. -/
abbrev Section := Table (Table String)

structure Assets where
  audio : Section
  textures : Section
  materials : Section
deriving DecidableEq

namespace Assets

def empty : Assets := ⟨.empty, .empty, .empty⟩

def isEmpty (a : Assets) : Bool :=
  a.audio.isEmpty && a.textures.isEmpty && a.materials.isEmpty

def ofKind (a : Assets) : AssetKind → Section
  | .audio => a.audio
  | .texture => a.textures
  | .material => a.materials

def modify (a : Assets) (kind : AssetKind) (f : Section → Section) : Assets :=
  match kind with
  | .audio => { a with audio := f a.audio }
  | .texture => { a with textures := f a.textures }
  | .material => { a with materials := f a.materials }

/-- Binds a property of a selector in a section; an earlier binding of it gives way. -/
def bind (s : Section) (selector property value : String) : Section :=
  s.insert selector (((s.get? selector).getD .empty).insert property value)

def insert (a : Assets) (kind : AssetKind) (selector property value : String) : Assets :=
  a.modify kind fun s => bind s selector property value

/-- Adds all of `other`.  A selector that both have keeps only the bindings of `other`. -/
def merge (a other : Assets) : Assets :=
  ⟨a.audio.merge other.audio, a.textures.merge other.textures,
    a.materials.merge other.materials⟩

end Assets

end RichStyle
