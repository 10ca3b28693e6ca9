import HeaderAtlas.Catalog.Basic

/-!
# Types known from the start

Headers use primitive, mathematical and container types without declaring them. They are declared as internal types before
the first header is read.
-/

namespace HeaderAtlas

namespace Catalog

/-- The primitive types, with their codes in variant values. -/
def primitives : List (String × Option String) :=
  [("void", some "VT_Invalid"), ("bool", some "VT_Bool"), ("int", some "VT_Int32"), ("float", some "VT_Float"),
   ("unsigned", some "VT_UInt32"), ("uint8_t", none), ("int8_t", none), ("uint16_t", some "VT_UShort"),
   ("int16_t", some "VT_Short"), ("uint32_t", some "VT_UInt32"), ("uint64_t", some "VT_UInt64"),
   ("int64_t", some "VT_Int64"), ("double", some "VT_Double"), ("size_t", none), ("std::string", some "VT_String"),
   ("String", some "VT_String"), ("StringHash", some "VT_StringHash"), ("Variant", none),
   ("VariantVector", some "VT_VariantVector"), ("VariantMap", some "VT_VariantMap")]

/-- A small aggregate of numbers: its name, its code, the type of its components and their names. -/
structure Aggregate where
  name : String
  code : String
  component : String
  fields : List String
  deriving DecidableEq, Repr

/-- The small aggregates of numbers. -/
def aggregates : List Aggregate :=
  [⟨"IntVector2", "VT_IntVector2", "int", ["x_", "y_"]⟩,
   ⟨"IntVector3", "VT_IntVector3", "int", ["x_", "y_", "z_"]⟩,
   ⟨"IntRect", "VT_IntRect", "int", ["left_", "top_", "right_", "bottom_"]⟩,
   ⟨"Rect", "VT_Rect", "float", ["Left()", "Top()", "Right()", "Bottom()"]⟩,
   ⟨"Vector2", "VT_Vector2", "float", ["x_", "y_"]⟩,
   ⟨"Vector3", "VT_Vector3", "float", ["x_", "y_", "z_"]⟩,
   ⟨"Vector4", "VT_Vector4", "float", ["x_", "y_", "z_", "w_"]⟩,
   ⟨"Quaternion", "VT_Quat", "float", ["x_", "y_", "z_", "w_"]⟩,
   ⟨"Color", "VT_Color", "float", ["r_", "g_", "b_", "a_"]⟩]

/-- The mathematical types of which only the name is known. -/
def opaqueNames : List String := ["float2", "float3", "float4", "rgba", "Quat", "float3x3", "float3x4", "float4x4"]

/-- The containers, with their codes in variant values. -/
def templates : List (String × Option String) :=
  [("SharedPtr", some "VT_SharedPtr"), ("Vector", none), ("PODVector", none), ("HashMap", none), ("std::vector", none),
   ("std::array", none), ("std::set", none), ("std::unordered_map", none), ("std::map", none)]

/-- The record of an internal type. -/
def internalType (name : String) (code : Option String) (isPrimitive isTemplate : Bool) : TypeDef :=
  { name, variantCode := code, flags := { isInternal := true, isPrimitive, isTemplate } }

/-- An aggregate declared, its components public properties. -/
def addAggregate (c : Catalog) (a : Aggregate) : Catalog :=
  let (id, c) := c.register (internalType a.name (some a.code) true false)
  let (component, c) := c.reference a.component
  c.edit id fun d =>
    { d with
      flags := { d.flags with isVector := true }
      properties := d.properties ++
        a.fields.map fun name => { name, type := component, modifiers := { visibility := .publicAccess } } }

/-- The catalog of the types known from the start. -/
def builtin : Catalog :=
  let c := primitives.foldl (fun c p => (c.register (internalType p.1 p.2 true false)).2) empty
  let c := aggregates.foldl addAggregate c
  let c := opaqueNames.foldl (fun c name => (c.register (internalType name none false false)).2) c
  templates.foldl (fun c t => (c.register (internalType t.1 t.2 false true)).2) c

end Catalog

end HeaderAtlas
