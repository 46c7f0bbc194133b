import ApiCatalog.Catalog.Module
import ApiCatalog.Json.Writer

namespace ApiCatalog

namespace Wrapper

structure Field where
  name : String
  type : String
  optional : Bool

def required (name type : String) : Field :=
  ⟨name, type, false⟩

def optional (name type : String) : Field :=
  ⟨name, type, true⟩

structure RecordType where
  name : String
  fields : List Field

def recordTypes : List RecordType :=
  [⟨"ParameterJson",
      [required "name" "string", required "type" "string", optional "optional" "boolean",
        optional "default_value" "string", optional "description" "string"]⟩,
    ⟨"GenericParamJson",
      [required "name" "string", optional "constraint" "string", optional "default_type" "string"]⟩,
    ⟨"ComponentPropJson",
      [required "name" "string", required "type" "string", optional "optional" "boolean",
        optional "default_value" "string", optional "description" "string",
        optional "bindable" "boolean"]⟩,
    ⟨"DeclarationJson",
      [required "name" "string", required "kind" "DeclarationKind", optional "source_line" "number",
        optional "comment" "string", optional "type_signature" "string",
        optional "return_type" "string", optional "return_description" "string",
        optional "parameters" "ParameterJson[]", optional "generic_params" "GenericParamJson[]",
        optional "extends" "string[]", optional "implements" "string[]",
        optional "members" "DeclarationJson[]", optional "properties" "DeclarationJson[]",
        optional "props" "ComponentPropJson[]", optional "modifiers" "string[]",
        optional "throws" "string[]", optional "since" "string", optional "deprecated" "string",
        optional "examples" "string[]", optional "see_also" "string[]",
        optional "alias_of" "\x7b module: string; name: string \x7d",
        optional "also_exported_from" "string[]"]⟩,
    ⟨"ReExportJson",
      [required "local_name" "string", required "source_module" "string",
        required "exported_name" "string"]⟩,
    ⟨"ModuleJson",
      [required "path" "string", optional "declarations" "DeclarationJson[]",
        optional "module_comment" "string", optional "dependencies" "string[]",
        optional "dependents" "string[]", optional "star_exports" "string[]",
        optional "re_exports" "ReExportJson[]"]⟩,
    ⟨"LibraryJson",
      [required "name" "string", required "version" "string", optional "description" "string",
        optional "repository" "string", optional "homepage" "string",
        required "modules" "ModuleJson[]"]⟩]

def Field.text (f : Field) : String :=
  "\t" ++ f.name ++ (if f.optional then "?" else "") ++ ": " ++ f.type ++ ";\n"

def RecordType.text (t : RecordType) : String :=
  "export interface " ++ t.name ++ " \x7b\n" ++ String.join (t.fields.map Field.text) ++ "\x7d\n\n"

def kindType : String :=
  " | ".intercalate (DeclarationKind.all.map fun k => Json.escaped k.name)

def moduleCount (n : Nat) : String :=
  toString n ++ " module" ++ (if n = 1 then "" else "s")

end Wrapper

def Library.wrapper (l : Library) (jsonFile : String) : String :=
  "// generated by docinfo - do not edit\n"
    ++ "// " ++ l.name ++ "@" ++ l.version ++ ": " ++ Wrapper.moduleCount l.modules.length ++ "\n\n"
    ++ "import json from './" ++ jsonFile ++ "';\n\n"
    ++ "export type DeclarationKind = " ++ Wrapper.kindType ++ ";\n\n"
    ++ String.join (Wrapper.recordTypes.map Wrapper.RecordType.text)
    ++ "export const library_json: LibraryJson = json as unknown as LibraryJson;\n\n"
    ++ "export default library_json;\n"

end ApiCatalog
