import RandxFpga.Fpga.EngineScratchpad
import RandxFpga.Fpga.FloatAlu
import RandxFpga.Fpga.ProgramStore
import RandxFpga.Oracle.EGroup
import RandxFpga.Oracle.FileLoading
import RandxFpga.Oracle.FinalFile
import RandxFpga.Oracle.Vm
import RandxFpga.Bench.IntAluMonitor
import RandxFpga.Refine.AnalysisDecode
import RandxFpga.Refine.BenchDecode
import RandxFpga.Refine.ProgramRun
import RandxFpga.Refine.Reciprocal
import RandxFpga.Oracle.Hash
import RandxFpga.Oracle.Argon2Memory
import RandxFpga.Miner.Nonce
