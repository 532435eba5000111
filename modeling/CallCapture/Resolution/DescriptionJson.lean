import CallCapture.Error
import CallCapture.Json.Fields
import CallCapture.Json.Printing
import CallCapture.Resolution.Description

/-!
Method descriptions as JSON objects.
-/

namespace CallCapture.Description

def fieldNames : List String :=
  ["moduleName", "className", "methodName", "filterByParameters", "parameterTypes"]

def toJson (description : Description) : JsonTree :=
  .record ([("moduleName", .text description.moduleName),
      ("className", .text description.className), ("methodName", .text description.methodName),
      ("filterByParameters", .bool description.filterByParameters)]
    ++ (description.parameterTypes.map fun types => ("parameterTypes", JsonTree.texts types)).toList)

def ofJson? (tree : JsonTree) : Option Description := do
  match ← tree.slots fieldNames with
  | [moduleName, className, methodName, filter, types] =>
      some ⟨← JsonTree.required JsonTree.text? moduleName,
        ← JsonTree.required JsonTree.text? className,
        ← JsonTree.required JsonTree.text? methodName,
        ← JsonTree.orDefault false JsonTree.bool? filter,
        ← JsonTree.orDefault none (JsonTree.optional? (JsonTree.list? JsonTree.text?)) types⟩
  | _ => none

def parse (text : String) : Except Error Description :=
  match (JsonTree.parse? text).bind ofJson? with
  | some description => .ok description
  | none => .error .json

end CallCapture.Description
