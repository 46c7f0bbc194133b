import ApiCatalog.Catalog.Module
import ApiCatalog.Json.Writer

namespace ApiCatalog

def Parameter.toJson (p : Parameter) : Json :=
  .compact
    [("name", .string p.name),
      ("type", .string p.type),
      ("optional", .bool p.optional),
      ("default_value", .ofOption p.defaultValue),
      ("description", .ofOption p.description)]

def GenericParam.toJson (p : GenericParam) : Json :=
  .compact
    [("name", .string p.name),
      ("constraint", .ofOption p.constraint),
      ("default_type", .ofOption p.defaultType)]

def ComponentProp.toJson (p : ComponentProp) : Json :=
  .compact
    [("name", .string p.name),
      ("type", .string p.type),
      ("optional", .bool p.optional),
      ("default_value", .ofOption p.defaultValue),
      ("description", .ofOption p.description),
      ("bindable", .bool p.bindable)]

def AliasOf.toJson (a : AliasOf) : Json :=
  .object [("module", .string a.module), ("name", .string a.name)]

def Declaration.encode (d : Declaration) (members properties : List Json) : Json :=
  .compact
    [("name", .string d.name),
      ("kind", .string d.kind.name),
      ("source_line", (d.sourceLine.map Json.ofNat).getD .null),
      ("comment", .ofOption d.comment),
      ("type_signature", .ofOption d.typeSignature),
      ("return_type", .ofOption d.returnType),
      ("return_description", .ofOption d.returnDescription),
      ("parameters", .array (d.parameters.map Parameter.toJson)),
      ("generic_params", .array (d.genericParams.map GenericParam.toJson)),
      ("extends", .strings d.extended),
      ("implements", .strings d.implemented),
      ("members", .array members),
      ("properties", .array properties),
      ("props", .array (d.props.map ComponentProp.toJson)),
      ("modifiers", .strings d.modifiers),
      ("throws", .strings d.throws),
      ("since", .ofOption d.since),
      ("deprecated", .ofOption d.deprecated),
      ("examples", .strings d.examples),
      ("see_also", .strings d.seeAlso),
      ("alias_of", (d.aliasOf.map AliasOf.toJson).getD .null),
      ("also_exported_from", .strings d.alsoExportedFrom)]

mutual

def Declaration.toJson : Declaration → Json
  | ⟨name, kind, line, comment, signature, returnType, returnDescription, parameters, generics, extended,
      implemented, members, properties, props, modifiers, throws, examples, seeAlso, since,
      deprecated, aliasOf, exporters⟩ =>
    Declaration.encode
      ⟨name, kind, line, comment, signature, returnType, returnDescription, parameters, generics, extended,
        implemented, members, properties, props, modifiers, throws, examples, seeAlso, since,
        deprecated, aliasOf, exporters⟩
      (Declaration.listToJson members) (Declaration.listToJson properties)

def Declaration.listToJson : List Declaration → List Json
  | [] => []
  | d :: ds => d.toJson :: Declaration.listToJson ds

end

def ReExport.toJson (e : ReExport) : Json :=
  .object
    [("local_name", .string e.localName),
      ("source_module", .string e.sourceModule),
      ("exported_name", .string e.exportedName)]

def Module.toJson (m : Module) : Json :=
  .compact
    [("path", .string m.path),
      ("declarations", .array (m.declarations.map Declaration.toJson)),
      ("module_comment", .ofOption m.moduleComment),
      ("dependencies", .strings m.dependencies),
      ("dependents", .strings m.dependents),
      ("star_exports", .strings m.starExports),
      ("re_exports", .array (m.reExports.map ReExport.toJson))]

def Library.toJson (l : Library) : Json :=
  .object
    (([("name", .string l.name),
      ("version", .string l.version),
      ("description", .ofOption l.description),
      ("repository", .ofOption l.repository),
      ("homepage", .ofOption l.homepage)] : List (String × Json)).filter (fun f => !f.2.isVoid)
    ++ [("modules", .array (l.modules.map Module.toJson))])

def Library.serialize (l : Library) : String :=
  l.toJson.render ++ "\n"

end ApiCatalog
