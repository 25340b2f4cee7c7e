import ResourceTypes.Field.Companion

/-! # Sensitive fields

The value of a sensitive field is never stored inline. A field that can be set becomes
a reference to a key of a secret; a field that is only observed is left out. In both cases the
source path is mapped to a target path under the part of the object that holds it. -/

namespace ResourceTypes

/-- The suffix of a field that refers to a secret. -/
def secretRefSuffix : String := "SecretRef"

/-- A field that takes the place of a sensitive one. -/
structure SecretField where
  name : String
  type : ValueType
  jsonTag : String
deriving DecidableEq, Repr

/-- The reference to a secret in place of a field that can be set; only texts have one. -/
def secretField? (name : String) (type : ValueType) (optional : Bool) : Option SecretField :=
  if type.isStringLike then
    let secretName := name ++ secretRefSuffix
    let tag := (FieldName.ofCamel secretName).tag
    if optional then some ⟨secretName, .pointer .secretKeySelector, tag ++ omitEmpty⟩
    else some ⟨secretName, .secretKeySelector, tag⟩
  else none

/-- The target of a sensitive field that can be set. -/
def parameterTarget (target : FieldPath) : String :=
  "spec.forProvider." ++ target.spelled ++ secretRefSuffix

/-- The target of a sensitive field that is only observed. -/
def observationTarget (target : FieldPath) : String := "status.atProvider." ++ target.spelled

end ResourceTypes
