import ReleaseOperator.Resource.Basic
import ReleaseOperator.Resource.Schema
import ReleaseOperator.Yaml.Printer

/-!
# Definitions of the kinds

What a cluster is told about the two kinds of resource before it can store any: how
they are called, which columns lists of them show, and what their fields are.
-/

namespace ReleaseOperator

namespace Schema

def keyRef : Schema :=
  .record [
    ("name", .refused, "Name of the config map or secret", .text),
    ("key", .refused, "Key holding a YAML document", .text),
    ("optional", .unset,
      "A missing optional source is skipped instead of failing the reconcile", .flag)]

def valuesSource : Schema :=
  .record [
    ("configMapRef", .unset, "Config map key carrying YAML values", keyRef),
    ("secretRef", .unset, "Secret key carrying YAML values", keyRef),
    ("values", .leftOut, "Inline values", .free)]

def overrides : Schema :=
  .list
    ("One Helm value override\n\nExactly one field is expected; when several are set the " ++
      "inline values take\nprecedence, then the secret reference, then the config map " ++
      "reference.")
    valuesSource

def chart : Schema :=
  .record [
    ("name", .refused, "Chart name", .text),
    ("path", emptyText,
      "Local chart directory; when empty the chart is pulled from the repository", .text),
    ("version", emptyText,
      "Chart version; empty means the version the chart itself declares", .text)]

def repository : Schema :=
  .record [
    ("name", emptyText, "Repository name", .text),
    ("uri", emptyText, "Repository URI", .text),
    ("credentialsSecret", .unset,
      "Secret (in the resource namespace) carrying `username` and `password`", .text)]

def helmRelease : Schema :=
  .record [
    ("name", .refused, "Release name", .text),
    ("namespace", emptyText, "Release namespace", .text),
    ("chart", .refused, "Chart to deploy", chart),
    ("repo", .filled Repository.none.toJson, "Repository the chart is pulled from", repository),
    ("overrides", emptyList, "Value overrides, later entries win", overrides)]

/-- What the field for a version means, which both kinds have. -/
def aboutVersion : String := "Desired semver version; empty selects the chart's own version"

def spec : Kind → Schema
  | .module =>
    .record [
      ("moduleName", .refused,
        "Module class; selects the controller instance that reconciles this Module", .text),
      ("version", emptyText, aboutVersion, .text),
      ("targetNamespace", emptyText,
        "Namespace the Helm release is installed into; defaults to the Module namespace", .text),
      ("overrides", emptyList, "Value overrides, later entries win", overrides)]
  | .action =>
    .record [
      ("moduleClassName", .refused,
        "Module class; selects the controller instance that handles this action", .text),
      ("action", .filled (.text ActionVerb.reconcile.name), "Requested action",
        .choice (ActionVerb.all.map ActionVerb.name)),
      ("version", emptyText, aboutVersion, .text),
      ("installer", .refused, "How the module is installed",
        .record [("helmRelease", .refused, "Helm release to manage", helmRelease)])]

def condition : Schema :=
  .record [
    ("type", .refused, "Type of condition", .text),
    ("reason", .refused, "Machine readable reason, one of the [`ConditionReason`] values", .text),
    ("status", .refused, "Status of the condition (True, False, Unknown)",
      .choice (Verdict.all.map Verdict.name)),
    ("message", emptyText, "Message describing the condition", .text),
    ("lastTransitionTime", .unset, "Last transition time (ISO-8601, seconds, UTC)", .text)]

/-- The fields for the last success, which modules have. -/
def lastSuccess : Kind → List (String × Absence × String × Schema)
  | .module => [
    ("lastSuccessfulVersion", .unset, "Version of the last successful install, upgrade or update",
      .text),
    ("lastSuccessfulGeneration", .unset,
      "Generation of the last successful install, upgrade or update", .whole)]
  | .action => []

def status (k : Kind) : Schema :=
  .record ([
    ("state", .unset, "Current lifecycle state", .choice (Phase.all.map Phase.name)),
    ("conditions", emptyList, "Most recent lifecycle conditions, oldest first",
      .list "Condition represents one observed transition of a resource" condition),
    ("observedGeneration", .unset, "Generation whose lifecycle last completed", .whole)] ++
    lastSuccess k)

end Schema

namespace Kind

def exampleLines : Kind → List String
  | module => [
    "  name: my-module",
    "  namespace: default",
    "spec:",
    "  moduleName: helm",
    "  version: 0.1.0",
    "  targetNamespace: my-module-system",
    "  overrides:",
    "    - values:",
    "        replicas: 2",
    "    - configMapRef:",
    "        name: my-module-values",
    "        key: values.yaml"]
  | action => [
    "  name: install-my-module",
    "  namespace: default",
    "spec:",
    "  moduleClassName: helm",
    "  action: reconcile",
    "  version: 0.1.0",
    "  installer:",
    "    helmRelease:",
    "      name: my-module",
    "      namespace: my-module-system",
    "      chart:",
    "        name: my-module",
    "        version: 0.1.0",
    "      repo:",
    "        name: stable",
    "        uri: https://charts.example.com"]

def about (k : Kind) : String :=
  "\n".intercalate ([k.name ++ " Custom Resource Definition", "", "# Example", "", "```yaml",
    "apiVersion: " ++ k.apiVersion, "kind: " ++ k.name, "metadata:"] ++ k.exampleLines ++ ["```"])

def singular : Kind → String
  | module => "module"
  | action => "moduleaction"

def shortName : Kind → String
  | module => "vzmod"
  | action => "vzmodaction"

/-- The columns of a list: their titles, and the fields that they show. -/
def columns : Kind → List (String × String)
  | module => [("Module", ".spec.moduleName"), ("State", ".status.state"),
    ("Version", ".status.lastSuccessfulVersion")]
  | action => [("Action", ".spec.action"), ("State", ".status.state")]

def schema (k : Kind) : Json :=
  Schema.document k.name
    ("Auto-generated derived type for " ++ k.name ++ "Spec via `CustomResource`")
    (.record [
      ("spec", .refused, k.about, Schema.spec k),
      ("status", .unset, "Status of the " ++ k.name ++ " resource", Schema.status k)])

def columnToJson (column : String × String) : Json :=
  .ofFields [("name", .text column.1), ("type", .text "string"), ("jsonPath", .text column.2)]

def servedVersion (k : Kind) : Json :=
  .ofFields [
    ("name", .text k.version), ("served", .bool true), ("storage", .bool true),
    ("subresources", .ofFields [("status", .ofFields [])]),
    ("additionalPrinterColumns", .array (k.columns.map columnToJson)),
    ("schema", .ofFields [("openAPIV3Schema", k.schema)])]

def definition (k : Kind) : Json :=
  .ofFields [
    ("apiVersion", .text "apiextensions.k8s.io/v1"),
    ("kind", .text "CustomResourceDefinition"),
    ("metadata", .ofFields [("name", .text (k.plural ++ "." ++ group))]),
    ("spec", .ofFields [
      ("group", .text group),
      ("names", .ofFields [
        ("categories", .array []), ("kind", .text k.name), ("plural", .text k.plural),
        ("shortNames", .ofTexts [k.shortName]), ("singular", .text k.singular)]),
      ("scope", .text "Namespaced"),
      ("versions", .array [k.servedVersion])])]

/-- The definitions of both kinds, as one text of two documents. -/
def definitions : String :=
  Yaml.render module.definition ++ "---\n" ++ Yaml.render action.definition

end Kind

end ReleaseOperator
