/-! # An example of a configuration -/

namespace ResourceTypes

/-- The lines of a configuration that shows each part that a file may hold. -/
def exampleLines : List String :=
  ["name = \"aws_s3_bucket\"",
   "kind = \"Bucket\"",
   "",
   "[late_initializer]",
   "ignored_fields = [\"lifecycle_rule.transition.days\"]",
   "",
   "[references.kms_key_id]",
   "type = \"github.com/example/provider-aws/apis/kms/v1alpha1.Key\"",
   "extractor = \"ExternalARN()\"",
   "",
   "[references.\"logging.target_bucket\"]",
   "type = \"Bucket\"",
   "ref_field_name = \"TargetBucketRef\"",
   "selector_field_name = \"TargetBucketSelector\""]

/-- The text of the example. -/
def exampleConfig : String := String.join (exampleLines.map fun line => line ++ "\n")

end ResourceTypes
