import RideTelemetry.Storage.Tree

/-! Where the settings file stands. Its path is given without the extension, but may have it. Of the
formats that settings can be written in only TOML is read: files in other formats, which their
extensions tell, are left out, both at the path itself and beside it. -/

namespace RideTelemetry.Settings

def fileExtension : String := "toml"

/-- An extension that gives way to another one. -/
def placeholder : String := ".placeholder"

/-- The path with the extension added to its last name. An extension that the name has already is a
part of the name. -/
def extended (path : String) : String :=
  let whole := if (Storage.extension? path).isSome then path ++ placeholder else path
  Storage.withExtension whole fileExtension

/-- The octets of the settings file, given what stands at each path. A file at the path itself
hides one at the extended path, even if it is no settings file. -/
def fileOctets? (path : String) (lookup : String → Storage.Lookup) : Option (List UInt8) :=
  match lookup path with
  | .ok (.file octets) =>
    if Storage.extension? path == some fileExtension then some octets else none
  | _ =>
    match lookup (extended path) with
    | .ok (.file octets) => some octets
    | _ => none

end RideTelemetry.Settings
