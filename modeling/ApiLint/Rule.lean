import ApiLint.Failure

/-! The rules that a configuration may mention, by scope and category. A scope says which engine a
rule belongs to and which format of documents it is for. The value of a rule is a status, alone or
in a list with what else the rule needs to know. -/
namespace ApiLint

/-- The statuses that a rule can have, the worst first; a rule that is off reports nothing. -/
def statuses : List Text :=
  ["error", "warning", "info", "hint", "off"]

/-- The status of a rule that is not configured. -/
def offStatus : Text := "off"

/-- The conventions for names that a rule can ask for. -/
def cases : List Text :=
  ["lower_snake_case", "upper_snake_case", "upper_camel_case", "lower_camel_case",
   "k8s_camel_case", "lower_dash_case", "upper_dash_case"]

/-- The names of properties whose types may differ. -/
def excludedProperties : List Text :=
  ["code", "default", "type", "value"]

/-- The ruleset of the rule engine that is always used. -/
def standardRuleset : Text := "spectral:oas"

/-- A ruleset that can be used besides. -/
def vendorRuleset : Text := "@ibm-cloud/openapi-ruleset"

/-- What the value of a rule looks like. -/
inductive RuleKind
  /-- A status. -/
  | status
  /-- A status and a convention for names, or off. -/
  | case
  /-- A status and names of properties, or off. -/
  | propertyType
  deriving DecidableEq, Repr

def RuleKind.text : RuleKind → Text
  | status => "status"
  | case => "case"
  | propertyType => "property_type"

/-- A rule: its name, what it reports, the kind of its value, and the ruleset that defines it if it
belongs to the rule engine. -/
structure Rule where
  name : Text
  description : Text
  kind : RuleKind
  ruleset : Option Text
  deriving DecidableEq, Repr

namespace Rule

def status (name description : Text) : Rule := ⟨name, description, .status, none⟩

def case (name description : Text) : Rule := ⟨name, description, .case, none⟩

def propertyType (name description : Text) : Rule := ⟨name, description, .propertyType, none⟩

/-- A rule of the standard ruleset. -/
def oas (name description : Text) : Rule := ⟨name, description, .status, some standardRuleset⟩

/-- A rule of the other known ruleset. -/
def ibm (name description : Text) : Rule := ⟨name, description, .status, some vendorRuleset⟩

/-- The rules about operations, for every format. -/
def sharedOperations : List Rule :=
  [.status "undefined_tag" "Flag a tag used in operations but not listed in top-level `tags`.",
   .status "unused_tag" "Flag a tag listed in top-level `tags` that is never used.",
   .status "no_operation_id" "Flag operations without an `operationId`.",
   .case "operation_id_case_convention" "Flag an `operationId` not in the given case.",
   .status "no_summary" "Flag operations without a `summary`.",
   .status "no_array_responses" "Flag operations with a top-level array response.",
   .status "parameter_order" "Flag optional parameters declared before a required one.",
   .status "operation_id_naming_convention" "Flag an `operationId` that breaks naming convention."]

/-- The rules about pagination, for every format. -/
def sharedPagination : List Rule :=
  [.status "pagination_style" "Flag parameters or responses that break pagination requirements."]

/-- The rules about parameters, for every format. -/
def sharedParameters : List Rule :=
  [.status "required_param_has_default" "Flag a required parameter with a default value.",
   .status "no_parameter_description" "Flag parameters without a `description`.",
   .case "param_name_case_convention" "Flag a parameter name not in the given case.",
   .status "invalid_type_format_pair" "Flag parameters with an invalid type/format pair.",
   .status "content_type_parameter" "Flag parameters that define `Content-Type` explicitly.",
   .status "accept_type_parameter" "Flag parameters that define `Accept` explicitly.",
   .status "authorization_parameter" "Flag parameters that define `Authorization` explicitly."]

/-- The rules about paths, for every format. -/
def sharedPaths : List Rule :=
  [.status "missing_path_parameter"
     "Flag operations that do not define a templated path parameter.",
   .status "snake_case_only" "Flag path segments that are not snake case.",
   .case "paths_case_convention" "Flag path segments not in the given case.",
   .status "duplicate_path_parameter"
     "Flag path parameters defined identically in every operation."]

/-- The rules about responses, for every format. -/
def sharedResponses : List Rule :=
  [.status "inline_response_schema" "Flag response schemas that do not reference a named model."]

/-- The rules about schemas, for every format. -/
def sharedSchemas : List Rule :=
  [.status "invalid_type_format_pair" "Flag schemas with an invalid type/format pair.",
   .status "snake_case_only" "Flag property names that are not lower snake case.",
   .status "no_schema_description" "Flag schemas without a `description`.",
   .status "no_property_description" "Flag properties without a `description`.",
   .status "description_mentions_json" "Flag property descriptions that mention JSON.",
   .status "array_of_arrays" "Flag array properties whose items are arrays.",
   .propertyType "inconsistent_property_type" "Flag properties that share a name but not a type.",
   .case "property_case_convention" "Flag property names not in the given case.",
   .status "property_case_collision" "Flag property names that differ only in case convention.",
   .case "enum_case_convention" "Flag enum values not in the given case.",
   .status "undefined_required_properties" "Flag required properties that are not defined."]

def sharedSecurityDefinitions : List Rule :=
  [.status "unused_security_schemes" "Flag security schemes that are never used.",
   .status "unused_security_scopes" "Flag security scopes that are never used."]

def sharedSecurity : List Rule :=
  [.status "invalid_non_empty_security_array"
     "Flag non-empty security arrays that are not OAuth2."]

/-- The rules about the document as a whole, for every format. -/
def sharedWalker : List Rule :=
  [.status "no_empty_descriptions" "Flag empty or whitespace-only `description` fields.",
   .status "has_circular_references" "Flag circular references in the document.",
   .status "$ref_siblings" "Flag properties that are siblings of a `$ref`.",
   .status "duplicate_sibling_description"
     "Flag `$ref` sibling descriptions equal to the target's.",
   .status "incorrect_ref_pattern" "Flag internal `$ref`s pointing at the wrong section."]

def swagger2Operations : List Rule :=
  [.status "no_consumes_for_put_or_post" "Flag put or post operations without `consumes`.",
   .status "get_op_has_consumes" "Flag get operations that declare `consumes`.",
   .status "no_produces" "Flag operations without `produces` (except head and 204)."]

def oas3Operations : List Rule :=
  [.status "no_request_body_name"
     "Flag non-form request bodies without `x-codegen-request-body-name`."]

/-- The rules about responses, for the current format. -/
def oas3Responses : List Rule :=
  [.status "no_success_response_codes" "Flag responses objects without a success code.",
   .status "protocol_switching_and_success_code"
     "Flag responses with both 101 and a success code.",
   .status "no_response_body" "Flag non-204 success responses without a body.",
   .status "ibm_status_code_guidelines" "Flag status codes that break the IBM API Handbook."]

/-- The rules about schemas, for the current format. -/
def oas3Schemas : List Rule :=
  [.status "json_or_param_binary_string" "Flag JSON bodies or parameters typed string/binary."]

/-- The rules of the rule engine that are known by name. -/
def engineRules : List Rule :=
  [.oas "operation-2xx-response" "Operation must have at least one 2xx response.",
   .oas "operation-operationId-unique" "Every operation must have a unique operationId.",
   .oas "operation-parameters" "Operation parameters are unique and non-repeating.",
   .oas "path-params" "Path parameters are correct and valid.",
   .oas "contact-properties" "Contact object should have name, url and email.",
   .oas "info-contact" "Info object should contain a contact object.",
   .oas "info-description" "Info description must be a non-empty string.",
   .oas "info-license" "Info object should have a license.",
   .oas "license-url" "License object should include a url.",
   .oas "no-$ref-siblings" "A $ref cannot be extended with sibling properties.",
   .oas "no-eval-in-markdown" "Markdown descriptions must not contain eval().",
   .oas "no-script-tags-in-markdown" "Markdown descriptions must not contain <script> tags.",
   .oas "openapi-tags-alphabetical" "Top-level tags should be sorted by name.",
   .oas "openapi-tags" "Top-level tags should be a non-empty array.",
   .oas "operation-description" "Operation should have a description.",
   .oas "operation-operationId" "Operation should have an operationId.",
   .oas "operation-operationId-valid-in-url" "operationId must only use URL-safe characters.",
   .oas "operation-singular-tag" "Operation should have at most one tag.",
   .oas "operation-tags" "Operation should have a non-empty tags array.",
   .oas "operation-tag-defined" "Operation tags should be defined in global tags.",
   .oas "path-declarations-must-exist" "Path parameter declarations cannot be empty.",
   .oas "path-keys-no-trailing-slash" "Paths should not end with a slash.",
   .oas "path-not-include-query" "Paths should not include a query string.",
   .oas "tag-description" "Tags should have a description.",
   .oas "typed-enum" "Enum values should respect the type specifier.",
   .oas "duplicated-entry-in-enum" "Enum values must be unique.",
   .oas "oas2-operation-formData-consume-check"
     "formData parameters need a form or multipart consumes entry.",
   .oas "oas2-api-host" "Swagger host must be a non-empty string.",
   .oas "oas2-api-schemes" "Swagger schemes must be a non-empty array.",
   .oas "oas2-host-not-example" "Host should not point at example.com.",
   .oas "oas2-host-trailing-slash" "Host should not have a trailing slash.",
   .oas "oas2-operation-security-defined" "Operation security must match securityDefinitions.",
   .oas "oas2-unused-definition" "Definition entry is never referenced.",
   .oas "oas2-anyOf" "anyOf is an OpenAPI v3 keyword.",
   .oas "oas2-oneOf" "oneOf is an OpenAPI v3 keyword.",
   .oas "oas2-schema" "Validate the structure of a Swagger 2.0 document.",
   .oas "oas2-parameter-description" "Parameter objects should have a description.",
   .oas "oas3-api-servers" "Servers must be a non-empty array.",
   .oas "oas3-examples-value-or-externalValue"
     "Examples have either value or externalValue, not both.",
   .oas "oas3-operation-security-defined" "Operation security must match securitySchemes.",
   .oas "oas3-server-not-example.com" "Server URL should not point at example.com.",
   .oas "oas3-server-trailing-slash" "Server URL should not have a trailing slash.",
   .oas "oas3-unused-component" "Component entry is never referenced.",
   .oas "oas3-schema" "Validate the structure of an OpenAPI 3 document.",
   .oas "oas3-parameter-description" "Parameter objects should have a description.",
   .oas "oas3-valid-media-example" "Media examples must be valid against their schema.",
   .oas "oas3-valid-schema-example" "Schema examples must be valid against their schema.",
   .ibm "content-entry-provided" "Request and non-204 response bodies need content.",
   .ibm "content-entry-contains-schema" "Content entries should contain a schema.",
   .ibm "ibm-content-type-is-specific" "Avoid the */* content type.",
   .ibm "ibm-error-content-type-is-json" "Error responses should be application/json.",
   .ibm "ibm-sdk-operations" "Validate the structure of x-sdk-operations.",
   .ibm "major-version-in-path" "Paths should carry a single major version segment.",
   .ibm "response-error-response-schema" "4xx and 5xx responses should describe the error.",
   .ibm "parameter-schema-or-content" "Parameters need a schema or content.",
   .ibm "request-body-object" "Request bodies should be objects.",
   .ibm "response-example-provided" "Responses should provide an example."]

/-- All declared rules, by scope and category. -/
def catalogue : List (Text × List (Text × List Rule)) :=
  [("shared",
     [("operations", sharedOperations),
      ("pagination", sharedPagination),
      ("parameters", sharedParameters),
      ("paths", sharedPaths),
      ("responses", sharedResponses),
      ("schemas", sharedSchemas),
      ("security_definitions", sharedSecurityDefinitions),
      ("security", sharedSecurity),
      ("walker", sharedWalker)]),
   ("swagger2",
     [("operations", swagger2Operations)]),
   ("oas3",
     [("operations", oas3Operations),
      ("responses", oas3Responses),
      ("schemas", oas3Schemas)]),
   ("spectral",
     [("rules", engineRules)])]

/-- The scopes in which rules of any name may be configured. -/
def extensibleScopes : List Text := ["spectral"]

/-- The declared rules of a scope and category. -/
def declared (scope category : Text) : List Rule :=
  (((catalogue.lookup scope).getD []).lookup category).getD []

/-- The declared rule of a scope and category with a name. -/
def find? (scope category : Text) (name : Value) : Option Rule :=
  (declared scope category).find? fun rule => Value.same (.str rule.name) name

end Rule

/-- The status in the configured value of a rule: the value itself, or the first item of a list. -/
def statusIn (value : Value) : Except Misuse Value :=
  match value.opened with
  | .list (status :: _) | .tuple (status :: _) => .ok status
  | .list [] | .tuple [] => .error .noItem
  | _ => .ok value

end ApiLint
