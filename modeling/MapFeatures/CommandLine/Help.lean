/-!
# Help — what the program says of itself
-/
namespace MapFeatures.CommandLine

def version : String := "rustontiles-cli 0.1.0"

/-- The lines of the help. -/
def help : List String := [
  "Classify OSM data into map layers",
  "",
  "Usage: rustontiles-cli [OPTIONS] --config <CONFIG> <INPUT>",
  "",
  "Arguments:",
  "  <INPUT>  OSM PBF file to read",
  "",
  "Options:",
  "      --config <CONFIG>    JSON file with store settings and classification rules",
  "      --threads <THREADS>  Worker threads, defaults to one per core",
  "  -h, --help               Print help",
  "  -V, --version            Print version"]

end MapFeatures.CommandLine
