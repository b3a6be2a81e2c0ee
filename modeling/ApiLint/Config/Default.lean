import ApiLint.Value

/-! The configuration that holds where nothing else is said. -/
namespace ApiLint.Config

def category (name : Text) (rules : List (Text × Value)) : Text × Value :=
  (name, .record rules)

def scope (name : Text) (categories : List (Text × Value)) : Text × Value :=
  (name, .record categories)

/-- A rule whose value is a status. -/
def is (name status : Text) : Text × Value :=
  (name, .str status)

/-- A rule whose value is a list. -/
def isList (name : Text) (value : List Text) : Text × Value :=
  (name, .texts value)

/-- The default configuration. -/
def defaults : Value :=
  .record
    [scope "shared"
        [category "operations"
          [is "no_operation_id" "warning",
           isList "operation_id_case_convention" ["off", "lower_camel_case"],
           is "no_summary" "warning",
           is "parameter_order" "error",
           is "undefined_tag" "error",
           is "unused_tag" "error",
           is "operation_id_naming_convention" "off",
           is "no_array_responses" "off"],
         category "pagination"
          [is "pagination_style" "error"],
         category "parameters"
          [is "no_parameter_description" "hint",
           isList "param_name_case_convention" ["off"],
           is "invalid_type_format_pair" "error",
           is "content_type_parameter" "error",
           is "accept_type_parameter" "error",
           is "authorization_parameter" "error",
           is "required_param_has_default" "error"],
         category "paths"
          [is "missing_path_parameter" "error",
           is "duplicate_path_parameter" "error",
           isList "paths_case_convention" ["off"]],
         category "responses"
          [is "inline_response_schema" "off"],
         category "security_definitions"
          [is "unused_security_schemes" "error",
           is "unused_security_scopes" "error"],
         category "security"
          [is "invalid_non_empty_security_array" "error"],
         category "schemas"
          [is "invalid_type_format_pair" "off",
           is "snake_case_only" "off",
           is "no_schema_description" "hint",
           is "no_property_description" "hint",
           is "description_mentions_json" "off",
           is "array_of_arrays" "off",
           isList "property_case_convention" ["off"],
           is "property_case_collision" "warning",
           isList "enum_case_convention" ["off"],
           is "undefined_required_properties" "error",
           isList "inconsistent_property_type" ["off"]],
         category "walker"
          [is "no_empty_descriptions" "error",
           is "has_circular_references" "warning",
           is "$ref_siblings" "off",
           is "duplicate_sibling_description" "error",
           is "incorrect_ref_pattern" "error"]],
     scope "swagger2"
        [category "operations"
          [is "no_consumes_for_put_or_post" "error",
           is "get_op_has_consumes" "warning",
           is "no_produces" "warning"]],
     scope "oas3"
        [category "operations"
          [is "no_request_body_name" "off"],
         category "responses"
          [is "no_success_response_codes" "warning",
           is "protocol_switching_and_success_code" "error",
           is "no_response_body" "error",
           is "ibm_status_code_guidelines" "off"],
         category "schemas"
          [is "json_or_param_binary_string" "error"]],
     scope "spectral"
        [category "rules"
          [is "no-eval-in-markdown" "error",
           is "no-script-tags-in-markdown" "error",
           is "openapi-tags" "warning",
           is "operation-description" "hint",
           is "operation-tags" "warning",
           is "operation-tag-defined" "warning",
           is "path-keys-no-trailing-slash" "error",
           is "typed-enum" "error",
           is "request-body-object" "off",
           is "oas2-api-host" "error",
           is "oas2-api-schemes" "error",
           is "oas2-host-trailing-slash" "error",
           is "oas2-anyOf" "error",
           is "oas2-oneOf" "error",
           is "oas3-api-servers" "off",
           is "oas3-examples-value-or-externalValue" "error",
           is "oas3-server-trailing-slash" "error",
           is "oas3-valid-schema-example" "off",
           is "response-example-provided" "hint",
           is "response-error-response-schema" "off",
           is "content-entry-contains-schema" "error",
           is "content-entry-provided" "off"]]]

end ApiLint.Config
