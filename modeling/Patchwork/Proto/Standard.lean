import Patchwork.Proto.Outline

/-!
# Declarations of the well-known types

The files that declare the well-known types, and those that declare declarations: the descriptors of
files, and the older forms for the description of types and of interfaces.
-/

namespace Patchwork.Proto

open Outline (Declarations)

def wellKnownPackage : String := "google.protobuf"

def wellKnownPath (name : String) : String := "google/protobuf/" ++ name

/-- A file of the well-known package. -/
def wellKnownFile (name : String) (d : Declarations) : File :=
  (d.file? (wellKnownPath name)).getD { name := wellKnownPath name, package := wellKnownPackage }

def anyFile : File := wellKnownFile "any.proto" {
  package := wellKnownPackage
  messages := [
    ("Any", ["string type_url = 1", "bytes value = 2"])] }

def durationFile : File := wellKnownFile "duration.proto" {
  package := wellKnownPackage
  messages := [
    ("Duration", ["int64 seconds = 1", "int32 nanos = 2"])] }

def emptyFile : File := wellKnownFile "empty.proto" {
  package := wellKnownPackage
  messages := [
    ("Empty", [])] }

def fieldMaskFile : File := wellKnownFile "field_mask.proto" {
  package := wellKnownPackage
  messages := [
    ("FieldMask", ["repeated string paths = 1"])] }

def structFile : File := wellKnownFile "struct.proto" {
  package := wellKnownPackage
  messages := [
    ("Struct", ["map<string,.google.protobuf.Value> fields = 1"]),
    ("Value", ["oneof:kind #google.protobuf.NullValue null_value = 1",
      "oneof:kind double number_value = 2", "oneof:kind string string_value = 3",
      "oneof:kind bool bool_value = 4", "oneof:kind .google.protobuf.Struct struct_value = 5",
      "oneof:kind .google.protobuf.ListValue list_value = 6"]),
    ("ListValue", ["repeated .google.protobuf.Value values = 1"])]
  enums := [
    ("NullValue", ["NULL_VALUE=0"])] }

def timestampFile : File := wellKnownFile "timestamp.proto" {
  package := wellKnownPackage
  messages := [
    ("Timestamp", ["int64 seconds = 1", "int32 nanos = 2"])] }

def wrappersFile : File := wellKnownFile "wrappers.proto" {
  package := wellKnownPackage
  messages := [
    ("DoubleValue", ["double value = 1"]),
    ("FloatValue", ["float value = 1"]),
    ("Int64Value", ["int64 value = 1"]),
    ("UInt64Value", ["uint64 value = 1"]),
    ("Int32Value", ["int32 value = 1"]),
    ("UInt32Value", ["uint32 value = 1"]),
    ("BoolValue", ["bool value = 1"]),
    ("StringValue", ["string value = 1"]),
    ("BytesValue", ["bytes value = 1"])] }

/-- The files of the types whose JSON form is their own. -/
def wellKnownFiles : List File :=
  [anyFile, durationFile, emptyFile, fieldMaskFile, structFile, timestampFile, wrappersFile]

/-! ## Declarations of declarations -/

/-- The declarations of files, before their options are opened to extensions. -/
def descriptorDeclarations : File := wellKnownFile "descriptor.proto" {
  package := wellKnownPackage
  dialect := .proto2
  messages := [
    ("FileDescriptorSet", ["repeated .google.protobuf.FileDescriptorProto file = 1"]),
    ("FileDescriptorProto", ["optional string name = 1", "optional string package = 2",
      "repeated string dependency = 3", "repeated int32 public_dependency = 10",
      "repeated int32 weak_dependency = 11",
      "repeated .google.protobuf.DescriptorProto message_type = 4",
      "repeated .google.protobuf.EnumDescriptorProto enum_type = 5",
      "repeated .google.protobuf.ServiceDescriptorProto service = 6",
      "repeated .google.protobuf.FieldDescriptorProto extension = 7",
      "optional .google.protobuf.FileOptions options = 8",
      "optional .google.protobuf.SourceCodeInfo source_code_info = 9",
      "optional string syntax = 12"]),
    ("DescriptorProto", ["optional string name = 1",
      "repeated .google.protobuf.FieldDescriptorProto field = 2",
      "repeated .google.protobuf.FieldDescriptorProto extension = 6",
      "repeated .google.protobuf.DescriptorProto nested_type = 3",
      "repeated .google.protobuf.EnumDescriptorProto enum_type = 4",
      "repeated .google.protobuf.DescriptorProto.ExtensionRange extension_range = 5",
      "repeated .google.protobuf.OneofDescriptorProto oneof_decl = 8",
      "optional .google.protobuf.MessageOptions options = 7",
      "repeated .google.protobuf.DescriptorProto.ReservedRange reserved_range = 9",
      "repeated string reserved_name = 10"]),
    ("DescriptorProto.ExtensionRange", ["optional int32 start = 1", "optional int32 end = 2",
      "optional .google.protobuf.ExtensionRangeOptions options = 3"]),
    ("DescriptorProto.ReservedRange", ["optional int32 start = 1", "optional int32 end = 2"]),
    ("ExtensionRangeOptions", [
      "repeated .google.protobuf.UninterpretedOption uninterpreted_option = 999"]),
    ("FieldDescriptorProto", ["optional string name = 1", "optional int32 number = 3",
      "optional #google.protobuf.FieldDescriptorProto.Label label = 4",
      "optional #google.protobuf.FieldDescriptorProto.Type type = 5",
      "optional string type_name = 6", "optional string extendee = 2",
      "optional string default_value = 7", "optional int32 oneof_index = 9",
      "optional string json_name = 10", "optional .google.protobuf.FieldOptions options = 8",
      "optional bool proto3_optional = 17"]),
    ("OneofDescriptorProto", ["optional string name = 1",
      "optional .google.protobuf.OneofOptions options = 2"]),
    ("EnumDescriptorProto", ["optional string name = 1",
      "repeated .google.protobuf.EnumValueDescriptorProto value = 2",
      "optional .google.protobuf.EnumOptions options = 3",
      "repeated .google.protobuf.EnumDescriptorProto.EnumReservedRange reserved_range = 4",
      "repeated string reserved_name = 5"]),
    ("EnumDescriptorProto.EnumReservedRange", ["optional int32 start = 1",
      "optional int32 end = 2"]),
    ("EnumValueDescriptorProto", ["optional string name = 1", "optional int32 number = 2",
      "optional .google.protobuf.EnumValueOptions options = 3"]),
    ("ServiceDescriptorProto", ["optional string name = 1",
      "repeated .google.protobuf.MethodDescriptorProto method = 2",
      "optional .google.protobuf.ServiceOptions options = 3"]),
    ("MethodDescriptorProto", ["optional string name = 1", "optional string input_type = 2",
      "optional string output_type = 3", "optional .google.protobuf.MethodOptions options = 4",
      "optional bool client_streaming = 5", "optional bool server_streaming = 6"]),
    ("FileOptions", ["optional string java_package = 1",
      "optional string java_outer_classname = 8", "optional bool java_multiple_files = 10",
      "optional bool java_generate_equals_and_hash = 20",
      "optional bool java_string_check_utf8 = 27",
      "optional #google.protobuf.FileOptions.OptimizeMode optimize_for = 9",
      "optional string go_package = 11", "optional bool cc_generic_services = 16",
      "optional bool java_generic_services = 17", "optional bool py_generic_services = 18",
      "optional bool php_generic_services = 42", "optional bool deprecated = 23",
      "optional bool cc_enable_arenas = 31", "optional string objc_class_prefix = 36",
      "optional string csharp_namespace = 37", "optional string swift_prefix = 39",
      "optional string php_class_prefix = 40", "optional string php_namespace = 41",
      "optional string php_metadata_namespace = 44", "optional string ruby_package = 45",
      "repeated .google.protobuf.UninterpretedOption uninterpreted_option = 999"]),
    ("MessageOptions", ["optional bool message_set_wire_format = 1",
      "optional bool no_standard_descriptor_accessor = 2", "optional bool deprecated = 3",
      "optional bool map_entry = 7",
      "repeated .google.protobuf.UninterpretedOption uninterpreted_option = 999"]),
    ("FieldOptions", ["optional #google.protobuf.FieldOptions.CType ctype = 1",
      "optional bool packed = 2", "optional #google.protobuf.FieldOptions.JSType jstype = 6",
      "optional bool lazy = 5", "optional bool deprecated = 3", "optional bool weak = 10",
      "repeated .google.protobuf.UninterpretedOption uninterpreted_option = 999"]),
    ("OneofOptions", ["repeated .google.protobuf.UninterpretedOption uninterpreted_option = 999"]),
    ("EnumOptions", ["optional bool allow_alias = 2", "optional bool deprecated = 3",
      "repeated .google.protobuf.UninterpretedOption uninterpreted_option = 999"]),
    ("EnumValueOptions", ["optional bool deprecated = 1",
      "repeated .google.protobuf.UninterpretedOption uninterpreted_option = 999"]),
    ("ServiceOptions", ["optional bool deprecated = 33",
      "repeated .google.protobuf.UninterpretedOption uninterpreted_option = 999"]),
    ("MethodOptions", ["optional bool deprecated = 33",
      "optional #google.protobuf.MethodOptions.IdempotencyLevel idempotency_level = 34",
      "repeated .google.protobuf.UninterpretedOption uninterpreted_option = 999"]),
    ("UninterpretedOption", ["repeated .google.protobuf.UninterpretedOption.NamePart name = 2",
      "optional string identifier_value = 3", "optional uint64 positive_int_value = 4",
      "optional int64 negative_int_value = 5", "optional double double_value = 6",
      "optional bytes string_value = 7", "optional string aggregate_value = 8"]),
    ("UninterpretedOption.NamePart", ["required string name_part = 1",
      "required bool is_extension = 2"]),
    ("SourceCodeInfo", ["repeated .google.protobuf.SourceCodeInfo.Location location = 1"]),
    ("SourceCodeInfo.Location", ["repeated int32 path = 1", "repeated int32 span = 2",
      "optional string leading_comments = 3", "optional string trailing_comments = 4",
      "repeated string leading_detached_comments = 6"]),
    ("GeneratedCodeInfo", [
      "repeated .google.protobuf.GeneratedCodeInfo.Annotation annotation = 1"]),
    ("GeneratedCodeInfo.Annotation", ["repeated int32 path = 1",
      "optional string source_file = 2", "optional int32 begin = 3", "optional int32 end = 4"])]
  enums := [
    ("FieldDescriptorProto.Type", ["TYPE_DOUBLE=1", "TYPE_FLOAT=2", "TYPE_INT64=3",
      "TYPE_UINT64=4", "TYPE_INT32=5", "TYPE_FIXED64=6", "TYPE_FIXED32=7", "TYPE_BOOL=8",
      "TYPE_STRING=9", "TYPE_GROUP=10", "TYPE_MESSAGE=11", "TYPE_BYTES=12", "TYPE_UINT32=13",
      "TYPE_ENUM=14", "TYPE_SFIXED32=15", "TYPE_SFIXED64=16", "TYPE_SINT32=17", "TYPE_SINT64=18"]),
    ("FieldDescriptorProto.Label", ["LABEL_OPTIONAL=1", "LABEL_REQUIRED=2", "LABEL_REPEATED=3"]),
    ("FileOptions.OptimizeMode", ["SPEED=1", "CODE_SIZE=2", "LITE_RUNTIME=3"]),
    ("FieldOptions.CType", ["STRING=0", "CORD=1", "STRING_PIECE=2"]),
    ("FieldOptions.JSType", ["JS_NORMAL=0", "JS_STRING=1", "JS_NUMBER=2"]),
    ("MethodOptions.IdempotencyLevel", ["IDEMPOTENCY_UNKNOWN=0", "NO_SIDE_EFFECTS=1",
      "IDEMPOTENT=2"])] }

/-- Opens the messages of options to extensions, which have the numbers from 1000 on. -/
def openOptions : MessageDecl → MessageDecl
  | .mk body nested =>
    let isOpen := body.name.endsWith "Options"
    .mk { body with extensible := if isOpen then [⟨1000, 536870911⟩] else [] } nested

/-- Files of type declarations, as messages. -/
def descriptorFile : File :=
  { descriptorDeclarations with messages := descriptorDeclarations.messages.map openOptions }

def sourceContextFile : File := wellKnownFile "source_context.proto" {
  package := wellKnownPackage
  messages := [
    ("SourceContext", ["string file_name = 1"])] }

def typeFile : File := wellKnownFile "type.proto" {
  package := wellKnownPackage
  imports := [wellKnownPath "any.proto", wellKnownPath "source_context.proto"]
  messages := [
    ("Type", ["string name = 1", "repeated .google.protobuf.Field fields = 2",
      "repeated string oneofs = 3", "repeated .google.protobuf.Option options = 4",
      ".google.protobuf.SourceContext source_context = 5", "#google.protobuf.Syntax syntax = 6"]),
    ("Field", ["#google.protobuf.Field.Kind kind = 1",
      "#google.protobuf.Field.Cardinality cardinality = 2", "int32 number = 3",
      "string name = 4", "string type_url = 6", "int32 oneof_index = 7", "bool packed = 8",
      "repeated .google.protobuf.Option options = 9", "string json_name = 10",
      "string default_value = 11"]),
    ("Enum", ["string name = 1", "repeated .google.protobuf.EnumValue enumvalue = 2",
      "repeated .google.protobuf.Option options = 3",
      ".google.protobuf.SourceContext source_context = 4", "#google.protobuf.Syntax syntax = 5"]),
    ("EnumValue", ["string name = 1", "int32 number = 2",
      "repeated .google.protobuf.Option options = 3"]),
    ("Option", ["string name = 1", ".google.protobuf.Any value = 2"])]
  enums := [
    ("Field.Kind", ["TYPE_UNKNOWN=0", "TYPE_DOUBLE=1", "TYPE_FLOAT=2", "TYPE_INT64=3",
      "TYPE_UINT64=4", "TYPE_INT32=5", "TYPE_FIXED64=6", "TYPE_FIXED32=7", "TYPE_BOOL=8",
      "TYPE_STRING=9", "TYPE_GROUP=10", "TYPE_MESSAGE=11", "TYPE_BYTES=12", "TYPE_UINT32=13",
      "TYPE_ENUM=14", "TYPE_SFIXED32=15", "TYPE_SFIXED64=16", "TYPE_SINT32=17", "TYPE_SINT64=18"]),
    ("Field.Cardinality", ["CARDINALITY_UNKNOWN=0", "CARDINALITY_OPTIONAL=1",
      "CARDINALITY_REQUIRED=2", "CARDINALITY_REPEATED=3"]),
    ("Syntax", ["SYNTAX_PROTO2=0", "SYNTAX_PROTO3=1"])] }

def apiFile : File := wellKnownFile "api.proto" {
  package := wellKnownPackage
  imports := [wellKnownPath "source_context.proto", wellKnownPath "type.proto"]
  messages := [
    ("Api", ["string name = 1", "repeated .google.protobuf.Method methods = 2",
      "repeated .google.protobuf.Option options = 3", "string version = 4",
      ".google.protobuf.SourceContext source_context = 5",
      "repeated .google.protobuf.Mixin mixins = 6", "#google.protobuf.Syntax syntax = 7"]),
    ("Method", ["string name = 1", "string request_type_url = 2", "bool request_streaming = 3",
      "string response_type_url = 4", "bool response_streaming = 5",
      "repeated .google.protobuf.Option options = 6", "#google.protobuf.Syntax syntax = 7"]),
    ("Mixin", ["string name = 1", "string root = 2"])] }

/-- All files that a set of files is expected to hold beside those of its own. -/
def standardFiles : List File :=
  wellKnownFiles ++ [descriptorFile, sourceContextFile, typeFile, apiFile]

end Patchwork.Proto
