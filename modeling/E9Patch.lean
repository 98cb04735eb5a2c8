import E9Patch.Basic
import E9Patch.Refactor
import E9Patch.Clustering
import E9Patch.Restore
import E9Patch.Reinstall
import E9Patch.LoaderMap
import E9Patch.Elf
import E9Patch.Accept
import E9Patch.Emit
import E9Patch.Region
import E9Patch.Pipeline
import E9Patch.Output
import E9Patch.Layout
import E9Patch.Header
import E9Patch.Tables
import E9Patch.Frame
import E9Patch.Errors
import E9Patch.LoaderView
import E9Patch.Remap
